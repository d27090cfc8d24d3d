/-
# Separation of thread memory

Every guest thread gets a stack from a bump pointer and, on A64, a page of thread-local storage
at an address computed from its id. Both windows have fixed neighbours: the main stack, the
callback stacks and, behind the thread stacks, the heap on A32 and the mmap arena on A64. As
long as a creation stays in front of that neighbour, the stacks, the storage blocks and the
mappings of the process never share an address, and the answer of `pthread_create` is right.

The handler only looks at the heap, so on A64 the stacks run into the mmap arena after 44
threads; and a creation it refuses is answered with success all the same.
-/

import Lunaria.Process.Machine

namespace Lunaria

open Lib List MapRun

/-! ## What a safe mapping call answers with -/

namespace MapRun

/-- The address of a safe call: the fixed one it asked for, a window of its own outside the image
window, or arena memory that was free and clear of the libraries. -/
inductive Answered (L : Layout) (g : MapRun) (c : MmapCall) : Nat → Prop
  | fixed (hfixed : fixedCall L g.space c = true) : Answered L g c c.addr
  | window {p addr : Nat} (hfixed : fixedCall L g.space c = false) (harm : L.isArm64 = true)
      (himage : hiWord p ≠ hiWord a64GuestBase)
      (hwithin : (c.rangeAt addr).Within (windowSpan p)) : Answered L g c addr
  | arena {off : Nat} (hfixed : fixedCall L g.space c = false)
      (hfree : ∀ x, off ≤ x → x < off + roundUp c.len 4096 → g.space.arenas.Free L x)
      (hlibraries : ∀ r ∈ g.space.loaded, Interval.Misses ⟨off, off + roundUp c.len 4096⟩ r.span) :
      Answered L g c (guestAddr L off)

variable {L : Layout} {g : MapRun}

variable {c : MmapCall} {raw : Bool} {addr : Nat} {area : Interval}

theorem Sound.answered (hsound : Sound L g) {env : HostEnv} (hsafe : Safe L g (.mmap raw env c))
    (haddr : (mmapHandler raw L g.space env c).1 = some addr) : Answered L g c addr := by
  have hserved := served_of_safe hsound.wellFormed hsafe
  rw [haddr] at hserved
  cases hserved with
  | fixed hfixed => exact .fixed hfixed
  | window hfixed harm himage hwithin => exact .window hfixed harm himage hwithin
  | arena hfixed htakes hlibraries => exact .arena hfixed htakes.free hlibraries

/-- The range a safe call returns misses an area that fixed calls keep out of and that the
arenas do not hand out. -/
theorem Answered.misses (h : Answered L g c addr) (hbelow : area.hi ≤ 2 ^ 32)
    (hfixed : fixedCall L g.space c → (c.rangeAt c.addr).Misses (guestSpan L area))
    (harena : ∀ off, (∀ x, off ≤ x → x < off + roundUp c.len 4096 → g.space.arenas.Free L x) →
      (∀ r ∈ g.space.loaded, Interval.Misses ⟨off, off + roundUp c.len 4096⟩ r.span) →
        Interval.Misses ⟨off, off + roundUp c.len 4096⟩ area) :
    (c.rangeAt addr).Misses (guestSpan L area) := by
  cases h with
  | fixed h => exact hfixed h
  | window _ harm himage hwithin =>
    have hspan := guestSpan_within_image harm hbelow
    have hmiss := (windowSpan_misses himage).of_within hwithin
    exact (hmiss.symm.of_within hspan).symm
  | arena _ hfree hlibraries =>
    rw [rangeAt_guestAddr]
    exact misses_guestSpan (harena _ hfree hlibraries)

/-- The mappings after a call: the old ones or what is left of them, and the new one. -/
theorem mem_liveAfter {result : Option Nat} {m : Mapping} (h : m ∈ g.liveAfter L c result) :
    (∃ addr, result = some addr ∧ m.range = c.rangeAt addr) ∨ m ∈ g.live ∨
      m ∈ cutLive g.live (c.rangeAt c.addr) := by
  cases result with
  | none => exact .inr (.inl h)
  | some addr =>
    simp only [liveAfter, mem_cons] at h
    rcases h with rfl | h
    · exact .inl ⟨addr, rfl, rfl⟩
    · split at h
      · exact .inr (.inr h)
      · exact .inr (.inl h)

theorem misses_cutLive {range : Interval} (h : ∀ m ∈ g.live, m.range.Misses area) :
    ∀ m ∈ cutLive g.live range, m.range.Misses area := by
  intro m hm
  obtain ⟨old, hold, -, -, hpiece⟩ := mem_cutLive hm
  exact (h old hold).of_mem_cut hpiece

theorem clear_step (hclear : ∀ m ∈ g.live, m.range.Misses area) {op : SpaceOp}
    (hanswer : ∀ raw env c, op = .mmap raw env c → ∀ addr,
      (mmapHandler raw L g.space env c).1 = some addr → (c.rangeAt addr).Misses area) :
    ∀ m ∈ (g.step L op).live, m.range.Misses area := by
  cases op with
  | mmap raw env c =>
    intro m hm
    rcases mem_liveAfter hm with ⟨addr, haddr, hrange⟩ | hold | hcut
    · rw [hrange]
      exact hanswer raw env c rfl addr haddr
    · exact hclear m hold
    · exact misses_cutLive hclear m hcut
  | munmap raw addr len => exact misses_cutLive hclear
  | mprotect _ _ _ | load _ _ | store _ _ => exact hclear

end MapRun

/-! ## Separation -/

namespace Process

/-- The thread-local storage of the main thread and of the threads that were not joined. -/
def tlsBlocks (L : Layout) (p : Process) : List Interval :=
  if L.isArm64 then (1 :: p.table.ids).map tlsBlock else []

/-- All thread memory and all mappings, by guest address. -/
def regions (L : Layout) (p : Process) : List Interval :=
  (L.mainStack :: (L.callbackStacks ++ p.stacksGiven)).map (guestSpan L) ++ p.tlsBlocks L ++
    p.map.live.map (·.range)

/-- Every creation was answered with 0 exactly if it made a thread, and no two regions share
an address. -/
structure Separated (L : Layout) (p : Process) : Prop where
  answers : ∀ answer ∈ p.answers, answer.1 = 0 ↔ answer.2 = true
  regions : (p.regions L).Pairwise Interval.Misses

/-- A creation is given a function, its stack ends in front of the next neighbour, and its id
is not in use. -/
def CreateSafe (L : Layout) (p : Process) (call : CreateCall) : Prop :=
  call.fn ≠ 0 ∧ p.table.stackNext + threadStackSize ≤ L.threadLimit ∧ p.table.InPlace

/-- A fixed mapping keeps out of the runtime area. -/
def FixedOutside (L : Layout) (p : Process) (c : MmapCall) : Prop :=
  fixedCall L p.map.space c = true → (c.rangeAt c.addr).Misses (guestSpan L L.runtimeArea)

/-- The steps that keep the thread memory separate. -/
def ThreadSafe (L : Layout) (p : Process) : ProcessOp → Prop
  | .thread (.create call) => p.CreateSafe L call
  | .mmap raw env c => MapRun.Safe L p.map (.mmap raw env c) ∧ p.FixedOutside L c
  | .munmap raw addr len => MapRun.Safe L p.map (.munmap raw addr len)
  | _ => True

instance createSafeDecidable (L : Layout) (p : Process) (call : CreateCall) :
    Decidable (p.CreateSafe L call) :=
  inferInstanceAs (Decidable (_ ∧ _ ∧ (_ = _)))

instance fixedOutsideDecidable (L : Layout) (p : Process) (c : MmapCall) :
    Decidable (p.FixedOutside L c) :=
  inferInstanceAs (Decidable (_ = true → _))

instance threadSafeDecidable (L : Layout) (p : Process) : ∀ op, Decidable (p.ThreadSafe L op)
  | .thread (.create call) => inferInstanceAs (Decidable (p.CreateSafe L call))
  | .mmap raw env c => inferInstanceAs
      (Decidable (MapRun.Safe L p.map (.mmap raw env c) ∧ p.FixedOutside L c))
  | .munmap raw addr len => inferInstanceAs (Decidable (MapRun.Safe L p.map (.munmap raw addr len)))
  | .thread (.exit _) | .thread (.join _) | .thread (.endSlice _ _) | .mprotect _ _ _
  | .store _ _ | .load _ | .sbrk _ | .brk _ => isTrue trivial

/-- What every safe step keeps. The ids of the records stay small because each of them once
took a stack. -/
structure ThreadsApart (L : Layout) (p : Process) : Prop where
  answers : ∀ answer ∈ p.answers, answer.1 = 0 ↔ answer.2 = true
  mappings : p.map.Sound L
  clear : ∀ m ∈ p.map.live, m.range.Misses (guestSpan L L.runtimeArea)
  numbered : p.table.Numbered
  unique : p.table.ids.Nodup
  small : ∀ id ∈ p.table.ids,
    L.threadStackBase + id * threadStackSize ≤ p.table.stackNext + threadStackSize
  counted : L.threadStackBase + p.table.ids.length * threadStackSize ≤ p.table.stackNext
  next : p.table.stackNext ≤ L.threadLimit
  stacked : ∀ stack ∈ p.stacksGiven,
    stack.Within ⟨L.threadStackBase, p.table.stackNext⟩
  stacksApart : p.stacksGiven.Pairwise Interval.Misses

variable {L : Layout} {p : Process}

/-! ### From the invariant to the property -/

theorem runtimeArea_not_free (hL : L.StacksOrdered) {a : Arenas} (hwf : a.WellFormed L)
    {x : Nat} (hx : x ∈ L.runtimeArea.addresses) : ¬ a.Free L x := by
  have hl := layoutConsts
  have horder := L.arenas_ordered
  have hprimary := hwf.primary
  have hsecond := hwf.secondary
  have hlimit : L.threadLimit ≤ heapBase := by
    rw [Layout.threadLimit]
    split <;> omega
  simp only [Layout.runtimeArea, Interval.mem_addresses] at hx
  intro hfree
  rcases (Arenas.free_iff L a).mp hfree with h | h | h
  · rcases hL.arenas with harena | harena <;> omega
  · omega
  · omega

theorem tlsBlock_eq (harm : L.isArm64) {id : Nat} (hpos : 0 < id) (hid : id < 0xDC) :
    tlsBlock id = guestSpan L ⟨libcDataA64 + 0x10000 + id * 0x1000,
      libcDataA64 + 0x10000 + id * 0x1000 + 0x1000⟩ := by
  have hlibc : libcDataA64 = 0x0A014000 := rfl
  have hkey : tlsKey id = id := by rw [tlsKey, u32_of_lt (by omega), if_neg (by omega)]
  have hva : (arm64TlsForTid [] id).2 =
      a64GuestVa (u32 (libcDataA64 + 0x10000 + tlsKey id * 0x1000)) := rfl
  rw [tlsBlock, hva, hkey, u32_of_lt (by omega), guestSpan, guestAddr, guestAddr, if_pos harm,
    if_pos harm, a64GuestVa_add]

def tlsSpans (p : Process) : List Interval :=
  (1 :: p.table.ids).map fun id =>
    ⟨libcDataA64 + 0x10000 + id * 0x1000, libcDataA64 + 0x10000 + id * 0x1000 + 0x1000⟩

theorem ThreadsApart.id_lt (h : p.ThreadsApart L) (hL : L.StacksOrdered)
    (harm : L.isArm64) {id : Nat} (hid : id ∈ 1 :: p.table.ids) : 0 < id ∧ id < 0xDC := by
  rcases mem_cons.mp hid with rfl | hid
  · exact ⟨by decide, by decide⟩
  have hforeign := h.numbered.foreign id hid
  have hsmall := h.small id hid
  have hnext := h.next
  have htls := (hL.tls harm).2.2
  have hsize : threadStackSize = 0x100000 := rfl
  rw [hsize] at hsmall htls
  simp only [mainIds, mem_cons] at hforeign
  omega

theorem ThreadsApart.tlsBlocks_eq (h : p.ThreadsApart L) (hL : L.StacksOrdered)
    (harm : L.isArm64) : p.tlsBlocks L = p.tlsSpans.map (guestSpan L) := by
  rw [tlsBlocks, if_pos harm, tlsSpans, map_map]
  apply map_congr_left
  intro id hid
  obtain ⟨hpos, hlt⟩ := h.id_lt hL harm hid
  exact tlsBlock_eq harm hpos hlt

theorem ThreadsApart.tlsSpans_apart (h : p.ThreadsApart L) :
    p.tlsSpans.Pairwise Interval.Misses := by
  have hnodup : (1 :: p.table.ids).Nodup := by
    refine nodup_cons.mpr ⟨?_, h.unique⟩
    intro hone
    exact h.numbered.foreign 1 hone (by decide)
  apply List.Pairwise.map _ _ hnodup
  intro id id' hne
  rw [Interval.misses_iff]
  simp only
  omega

theorem callbackStacks_within {stack : Interval} (h : stack ∈ L.callbackStacks) :
    stack.Within ⟨L.cbStackBase, L.cbStackBase + cbMaxDepth * cbStackSize⟩ := by
  simp only [Layout.callbackStacks, mem_map, mem_range] at h
  obtain ⟨depth, hdepth, rfl⟩ := h
  rw [show cbStackSize = 0x100000 from rfl]
  constructor
  · exact Nat.le_add_right ..
  · simp only
    omega

theorem callbackStacks_apart : L.callbackStacks.Pairwise Interval.Misses := by
  apply List.Pairwise.map _ _ pairwise_lt_range
  intro depth depth' hlt
  rw [Interval.misses_iff]
  simp only
  rw [show cbStackSize = 0x100000 from rfl]
  omega

theorem stack_within (hL : L.StacksOrdered)
    (hgiven : ∀ stack ∈ p.stacksGiven, stack.Within ⟨L.threadStackBase, L.threadLimit⟩)
    {stack : Interval} (hstack : stack ∈ L.mainStack :: (L.callbackStacks ++ p.stacksGiven)) :
    stack.Within ⟨L.stackBase, L.threadLimit⟩ := by
  have hmain := hL.main
  have hcallback := hL.callback
  have hthreads := hL.threads
  simp only [mem_cons, mem_append] at hstack
  rcases hstack with rfl | hcb | hthread
  · simp only [Interval.Within, Layout.mainStack]
    omega
  · have hin := callbackStacks_within hcb
    simp only [Interval.Within] at hin ⊢
    omega
  · have hin := hgiven stack hthread
    simp only [Interval.Within] at hin ⊢
    omega

section

variable (h : p.ThreadsApart L)
include h

theorem ThreadsApart.stacks_apart (hL : L.StacksOrdered) :
    (L.mainStack :: (L.callbackStacks ++ p.stacksGiven)).Pairwise Interval.Misses := by
  have hmain := hL.main
  have hcallback := hL.callback
  refine pairwise_cons.mpr ⟨?_, pairwise_append.mpr ⟨callbackStacks_apart, h.stacksApart, ?_⟩⟩
  · intro stack hstack
    rw [Interval.misses_iff]
    left
    rcases mem_append.mp hstack with hcb | hthread
    · exact hmain.trans (callbackStacks_within hcb).1
    · have hlo := (h.stacked stack hthread).1
      simp only [Layout.mainStack] at hlo ⊢
      omega
  · intro stack hcb stack' hthread
    rw [Interval.misses_iff]
    left
    exact ((callbackStacks_within hcb).2.trans hcallback).trans (h.stacked stack' hthread).1

/-- Every stack begins at or behind the main stack and ends inside the runtime area. -/
theorem ThreadsApart.stacks_within (hL : L.StacksOrdered)
    {stack : Interval} (hstack : stack ∈ L.mainStack :: (L.callbackStacks ++ p.stacksGiven)) :
    stack.Within ⟨L.stackBase, L.threadLimit⟩ := by
  refine stack_within hL (fun given hgiven => ?_) hstack
  have hin := h.stacked given hgiven
  exact ⟨hin.1, hin.2.trans h.next⟩

theorem ThreadsApart.tlsSpans_within (hL : L.StacksOrdered)
    (harm : L.isArm64) {span : Interval} (hspan : span ∈ p.tlsSpans) :
    span.Within ⟨L.trampBase, L.stackBase⟩ := by
  obtain ⟨id, hid, rfl⟩ := mem_map.mp hspan
  have hlt := h.id_lt hL harm hid
  obtain ⟨hlo, hhi, -⟩ := hL.tls harm
  have hsize : id * 0x1000 + 0x1000 ≤ 0xDC * 0x1000 := by omega
  constructor
  · exact hlo.trans (Nat.le_add_right ..)
  · exact (add_assoc ..).trans_le ((Nat.add_le_add_left hsize _).trans hhi)

theorem ThreadsApart.misses_live {span : Interval}
    (hspan : span.Within L.runtimeArea) {range : Interval}
    (hrange : range ∈ p.map.live.map (·.range)) : (guestSpan L span).Misses range := by
  obtain ⟨m, hm, rfl⟩ := mem_map.mp hrange
  have hwithin : (guestSpan L span).Within (guestSpan L L.runtimeArea) := by
    have hlo := hspan.1
    have hhi := hspan.2
    simp only [Interval.Within, guestSpan, guestAddr, a64GuestVa]
    split <;> omega
  exact (h.clear m hm).symm.of_within hwithin

theorem ThreadsApart.separated (hL : L.StacksOrdered) : p.Separated L where
  answers := h.answers
  regions := by
    have hlive := pairwise_map.mpr h.mappings.pairwise
    have hstacks := (h.stacks_apart hL).map (guestSpan L) fun i j => misses_guestSpan
    have htables := hL.tables
    have harea : ∀ stack ∈ L.mainStack :: (L.callbackStacks ++ p.stacksGiven),
        stack.Within L.runtimeArea := by
      intro stack hstack
      have hin := h.stacks_within hL hstack
      exact ⟨htables.trans hin.1, hin.2⟩
    rw [Process.regions]
    cases harm : L.isArm64 with
    | false =>
      rw [tlsBlocks, harm, if_neg Bool.false_ne_true, append_nil]
      refine pairwise_append.mpr ⟨hstacks, hlive, ?_⟩
      intro span hspan range hrange
      obtain ⟨stack, hstack, rfl⟩ := mem_map.mp hspan
      exact h.misses_live (harea stack hstack) hrange
    | true =>
      rw [h.tlsBlocks_eq hL harm]
      have htls := h.tlsSpans_apart.map (guestSpan L) fun i j => misses_guestSpan
      refine pairwise_append.mpr ⟨pairwise_append.mpr ⟨hstacks, htls, ?_⟩, hlive, ?_⟩
      · intro span hspan span' hspan'
        obtain ⟨stack, hstack, rfl⟩ := mem_map.mp hspan
        obtain ⟨block, hblock, rfl⟩ := mem_map.mp hspan'
        apply misses_guestSpan
        rw [Interval.misses_iff]
        right
        left
        exact (h.tlsSpans_within hL harm hblock).2.trans (h.stacks_within hL hstack).1
      · intro span hspan range hrange
        rcases mem_append.mp hspan with hspan | hspan
        · obtain ⟨stack, hstack, rfl⟩ := mem_map.mp hspan
          exact h.misses_live (harea stack hstack) hrange
        obtain ⟨block, hblock, rfl⟩ := mem_map.mp hspan
        have hin := h.tlsSpans_within hL harm hblock
        have hend : L.stackBase ≤ L.threadLimit :=
          (h.stacks_within hL mem_cons_self).1.trans
            ((Nat.le_add_right ..).trans (h.stacks_within hL mem_cons_self).2)
        exact h.misses_live ⟨hin.1, hin.2.trans hend⟩ hrange

end

/-! ### Steps -/

theorem threadsApart_initial (isArm64 : Bool) (heapMb mmap2Base mmap2End : Int) :
    (initial (guestLayoutInit isArm64 heapMb mmap2Base mmap2End)).ThreadsApart
      (guestLayoutInit isArm64 heapMb mmap2Base mmap2End) where
  answers := by simp [initial]
  mappings := sound_initial _
  clear := by simp [initial, MapRun.initial]
  numbered := ThreadTable.numbered_initial isArm64 heapMb mmap2Base mmap2End
  unique := nodup_nil
  small := by simp [initial, ThreadTable.initial, ThreadTable.ids, CppVector.empty]
  counted := by simp [initial, ThreadTable.initial, ThreadTable.ids, CppVector.empty]
  next := (stacksOrdered_guestLayoutInit isArm64 heapMb mmap2Base mmap2End).threads
  stacked := by simp [initial]
  stacksApart := List.Pairwise.nil

theorem ThreadsApart.of_map (h : p.ThreadsApart L) {op : SpaceOp} (hsafe : MapRun.Safe L p.map op)
    (hanswer : ∀ raw env c, op = .mmap raw env c → ∀ addr,
      (mmapHandler raw L p.map.space env c).1 = some addr →
        (c.rangeAt addr).Misses (guestSpan L L.runtimeArea)) :
    ThreadsApart L { p with map := p.map.step L op } :=
  { h with
    mappings := h.mappings.step op hsafe
    clear := clear_step h.clear hanswer }

theorem threadLimit_le (L : Layout) : L.threadLimit ≤ heapBase := by
  have hl := layoutConsts
  rw [Layout.threadLimit]
  split <;> omega

section

variable (h : p.ThreadsApart L)
include h

theorem ThreadsApart.mmap_misses (hL : L.StacksOrdered)
    {env : HostEnv} (hsafe : MapRun.Safe L p.map (.mmap raw env c)) (hfixed : p.FixedOutside L c)
    (haddr : (mmapHandler raw L p.map.space env c).1 = some addr) :
    (c.rangeAt addr).Misses (guestSpan L L.runtimeArea) := by
  have hl := layoutConsts
  have hlimit := threadLimit_le L
  have hbelow : L.runtimeArea.hi ≤ 2 ^ 32 := by
    simp only [Layout.runtimeArea]
    omega
  apply (h.mappings.answered hsafe haddr).misses hbelow hfixed
  intro off hfree _
  rw [Interval.misses_iff_forall]
  intro x hlo hhi hlo' hhi'
  exact runtimeArea_not_free hL h.mappings.wellFormed ⟨hlo', hhi'⟩ (hfree x hlo hhi)

/-- A creation with room in front of the next neighbour appends a record with the next id and
takes the next stack. -/
theorem ThreadsApart.creates {call : CreateCall} (hsafe : p.CreateSafe L call) :
    p.table.Creates call ∧ (p.create L call).table.ids = p.table.ids ++ [p.table.ids.length + 2] ∧
      (p.create L call).table.stackNext = p.table.stackNext + threadStackSize := by
  obtain ⟨hfn, hroom, -⟩ := hsafe
  have hl := layoutConsts
  have hlimit := threadLimit_le L
  have hwrap : u32 (p.table.stackNext + threadStackSize) = p.table.stackNext + threadStackSize :=
    u32_of_lt (by omega)
  have hcreates : p.table.Creates call := ⟨hfn, by rw [hwrap]; exact hroom.trans hlimit⟩
  refine ⟨hcreates, ?_, ?_⟩
  · rw [create, pthreadCreate, ThreadTable.svcPthreadCreate, if_pos hcreates]
    simp only [ThreadTable.ids, CppVector.items_pushBack, map_append, map_cons,
      map_nil, ThreadTable.newThread_id]
    rw [h.numbered.nextId_eq, ThreadTable.ids]
  · rw [create, pthreadCreate, ThreadTable.svcPthreadCreate, if_pos hcreates]
    exact hwrap

theorem ThreadsApart.create {call : CreateCall}
    (hsafe : p.CreateSafe L call) : (p.create L call).ThreadsApart L := by
  obtain ⟨hcreates, hids, hnext⟩ := h.creates hsafe
  have htable : (p.create L call).table = p.table.step L (.create call) := rfl
  have hstacks : (p.create L call).stacksGiven =
      ⟨p.table.stackNext, p.table.stackNext + threadStackSize⟩ :: p.stacksGiven := if_pos hcreates
  have hcounted := h.counted
  constructor
  case answers =>
    intro answer hanswer
    rcases mem_cons.mp hanswer with rfl | hold
    · simp [pthreadCreate, hcreates]
    · exact h.answers answer hold
  case mappings => exact h.mappings
  case clear => exact h.clear
  case numbered => exact htable ▸ h.numbered.step _
  case unique => exact htable ▸ h.numbered.nodup_step h.unique fun _ => hsafe.2.2
  case small =>
    intro id hid
    rw [hids, mem_append, mem_singleton] at hid
    rw [hnext]
    rcases hid with hold | rfl
    · exact (h.small id hold).trans (Nat.le_add_right ..)
    · rw [add_mul, ← add_assoc, two_mul, ← add_assoc]
      exact Nat.add_le_add_right (Nat.add_le_add_right hcounted _) _
  case counted =>
    rw [hids, hnext, length_append, length_singleton, Nat.succ_mul, ← add_assoc]
    exact Nat.add_le_add_right hcounted _
  case next => exact hnext ▸ hsafe.2.1
  case stacked =>
    intro stack hstack
    rw [hstacks] at hstack
    rw [hnext]
    rcases mem_cons.mp hstack with rfl | hold
    · exact ⟨(Nat.le_add_right ..).trans hcounted, le_rfl⟩
    · have hin := h.stacked stack hold
      exact ⟨hin.1, hin.2.trans (Nat.le_add_right ..)⟩
  case stacksApart =>
    rw [hstacks]
    refine pairwise_cons.mpr ⟨?_, h.stacksApart⟩
    intro stack hstack
    rw [Interval.misses_iff]
    right
    left
    exact (h.stacked stack hstack).2

theorem ThreadsApart.of_table {op : ThreadOp} (hop : ∀ call, op ≠ .create call) :
    ThreadsApart L { p with table := p.table.step L op } := by
  rcases ThreadTable.step_ids L p.table op with ⟨call, rfl, -⟩ | ⟨hsub, hnext⟩
  · exact absurd rfl (hop call)
  constructor
  case answers => exact h.answers
  case mappings => exact h.mappings
  case clear => exact h.clear
  case numbered => exact h.numbered.step op
  case unique => exact h.unique.sublist hsub
  case small =>
    intro id hid
    rw [hnext]
    exact h.small id (hsub.subset hid)
  case counted =>
    rw [hnext]
    exact (Nat.add_le_add_left (Nat.mul_le_mul_right _ hsub.length_le) _).trans h.counted
  case next => exact hnext ▸ h.next
  case stacked =>
    intro stack hstack
    rw [hnext]
    exact h.stacked stack hstack
  case stacksApart => exact h.stacksApart

theorem ThreadsApart.step (hL : L.StacksOrdered) (op : ProcessOp)
    (hsafe : p.ThreadSafe L op) : (p.step L op).ThreadsApart L := by
  cases op with
  | thread op =>
    cases op with
    | create call => exact h.create hsafe
    | exit _ | join _ | endSlice _ _ => exact h.of_table nofun
  | mmap raw env c =>
    apply h.of_map hsafe.1
    rintro _ _ _ ⟨⟩ addr haddr
    exact h.mmap_misses hL hsafe.1 hsafe.2 haddr
  | munmap raw addr len => exact h.of_map hsafe nofun
  | mprotect _ _ _ | store _ _ => exact h.of_map trivial nofun
  | load segs =>
    have hmap : ThreadsApart L
        { p with map := p.map.step L (.load (autoBase L p.map.space) segs) } :=
      h.of_map trivial nofun
    exact { hmap with }
  | sbrk r0 => exact { h with }
  | brk r0 => exact { h with }

end

end Process

/-- **Thread memory separation.** In both layouts, along every run of thread operations, mapping
calls, library loads and moves of the break whose steps are safe, a creation was answered with 0
exactly if it made a thread, and the stacks, the thread-local storage and the live mappings share no
address. -/
theorem separated_of_run (isArm64 : Bool) (heapMb mmap2Base mmap2End : Int) (ops : List ProcessOp)
    (hops : StepsMeet (Process.ThreadSafe (guestLayoutInit isArm64 heapMb mmap2Base mmap2End))
      (Process.step (guestLayoutInit isArm64 heapMb mmap2Base mmap2End))
      (Process.initial (guestLayoutInit isArm64 heapMb mmap2Base mmap2End)) ops) :
    (run (Process.step (guestLayoutInit isArm64 heapMb mmap2Base mmap2End))
      (Process.initial (guestLayoutInit isArm64 heapMb mmap2Base mmap2End)) ops).Separated
        (guestLayoutInit isArm64 heapMb mmap2Base mmap2End) := by
  have hL := stacksOrdered_guestLayoutInit isArm64 heapMb mmap2Base mmap2End
  have hstart := Process.threadsApart_initial isArm64 heapMb mmap2Base mmap2End
  exact (run_invariant (fun _ op h hop => h.step hL op hop) hstart hops).separated hL

/-- Two A64 threads, a mapping between their creations, and one that is joined and replaced. -/
def threadedRun : List ProcessOp :=
  [.thread (.create startCall), .mmap false plainHost (anonymousCall 0 0x200000),
    .thread (.create startCall), .thread (.exit 3), .thread (.join 3),
    .thread (.create startCall), .sbrk 0x1000, .load [⟨0, 0x3000, 5, [], true⟩]]

theorem separated_threadedRun : StepsMeet (Process.ThreadSafe (guestLayoutInit true 256 0 0))
        (Process.step (guestLayoutInit true 256 0 0))
        (Process.initial (guestLayoutInit true 256 0 0)) threadedRun ∧
      (run (Process.step (guestLayoutInit true 256 0 0))
        (Process.initial (guestLayoutInit true 256 0 0)) threadedRun).Separated
          (guestLayoutInit true 256 0 0) :=
  (and_iff_left_of_imp (separated_of_run true 256 0 0 threadedRun)).mpr (by decide)

/-- An A64 mapping, and then as many threads as fit in front of the mmap arena and one more. -/
def crowdedRun : List ProcessOp :=
  .mmap false plainHost (anonymousCall 0 0x1000) ::
    List.replicate 45 (.thread (.create startCall))

def refusedRun : List ProcessOp := [.thread (.create { startCall with fn := 0 })]

/-- The last stack of the crowded run is its first mapping, and the refused creation is
answered with 0. -/
theorem not_separated_crowdedRun :
    ¬ (run (Process.step (defaultLayout true)) (Process.initial (defaultLayout true))
        crowdedRun).Separated (defaultLayout true) ∧
      ¬ (run (Process.step (defaultLayout true)) (Process.initial (defaultLayout true))
        refusedRun).Separated (defaultLayout true) := by
  constructor
  · intro h
    exact absurd h.regions (by decide +kernel)
  · intro h
    exact absurd h.answers (by decide)

end Lunaria
