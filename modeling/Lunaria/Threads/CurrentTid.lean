/-
# Which thread is running

The program knows the running guest thread in three places: `g_current_tid`, the word the
guest's mutex stubs read (the id plus one, kept where the stubs are built, which is on A32),
and on A64 the two thread pointers. `set_cur_tid` writes all of them. `schedule_threads` and
`sched64_run_thread` switch with it; `call_guest_cb` and `pthread_kill` write `g_current_tid`
alone.

Passes, callbacks and signal handlers nest, so the machine keeps the stack of what is under
way. Each frame remembers the id that is current again once the frame is left, and the thread
the innermost frame runs as is what the three places should name.
-/

import Lunaria.Space.AddressSpace
import Lunaria.Lib.Run

namespace Lunaria

open Lib

/-! ## The machine -/

/-- The thread an id stands for, and the key of its thread-local storage: the main thread is 0
inside and 1 for `pthread_self`. -/
def tlsKey (tid : Nat) : Nat := if u32 tid = 0 then 1 else u32 tid

/-- `LIBC_DATA` of the A64 layout. -/
def libcDataA64 : Nat := 0x0A014000

/-- What is under way: a pass and its slice, or a callback; that of `pthread_kill` has saved an id
beside the one of `call_guest_cb`. -/
inductive Frame where
  | pass (prevTid : Nat) (slice : Option Nat)
  | callback (prevTid : Nat) (savedTid : Option Nat)
  deriving DecidableEq

/-- The three places, the thread-local storage that was handed out, the signal handlers, and
what is under way, innermost first. -/
structure TidState where
  isArm64 : Bool
  fastmutexLockVa : Nat
  currentTid : Nat
  curTidWord : Nat
  tpidrEl0 : Nat
  tpidrroEl0 : Nat
  tpidrByTid : List (Nat × Nat)
  sighandlers : List (Nat × Nat)
  scheduling : Bool
  cbDepth : Nat
  frames : List Frame

inductive TidOp where
  | passBegins
  | sliceBegins (tid : Nat)
  | sliceEnds
  | passEnds
  | callback (fn : Nat)
  | callbackReturns
  | signal (sig handler : Nat)
  | kill (target sig : Nat)

/-- `arm64_tls_for_tid`: the storage of the thread, mapped and put on record on first use. -/
def arm64TlsForTid (tpidrByTid : List (Nat × Nat)) (tid : Nat) : List (Nat × Nat) × Nat :=
  match tpidrByTid.lookup (tlsKey tid) with
  | some tls => (tpidrByTid, tls)
  | none =>
    let tls := a64GuestVa (u32 (libcDataA64 + 0x10000 + tlsKey tid * 0x1000))
    ((tlsKey tid, tls) :: tpidrByTid, tls)

namespace TidState

variable (s : TidState) (tid : Nat) (isArm64 : Bool)

/-- The part of `set_cur_tid` for A64, which is also `arm64_setup_tls`. -/
def setTpidr : TidState :=
  let tls := arm64TlsForTid s.tpidrByTid tid
  { s with tpidrByTid := tls.1, tpidrEl0 := tls.2, tpidrroEl0 := tls.2 }

def setCurTid : TidState :=
  let named := { s with currentTid := tid }
  let pointed := if s.isArm64 then named.setTpidr tid else named
  if s.fastmutexLockVa ≠ 0 then { pointed with curTidWord := u32 (tid + 1) } else pointed

/-- The context after its initialisation: A32 has the mutex stubs and their word, A64 the
thread pointers. -/
def initial : TidState :=
  let s : TidState :=
    { isArm64, fastmutexLockVa := 0, currentTid := 0, curTidWord := 0, tpidrEl0 := 0,
      tpidrroEl0 := 0, tpidrByTid := [], sighandlers := [], scheduling := false, cbDepth := 0,
      frames := [] }
  if isArm64 then s.setTpidr 0 else { s with fastmutexLockVa := 0x4100f010, curTidWord := 1 }

/-- Guest code can execute: no pass is between two slices. -/
def executing : Bool :=
  match s.frames with
  | .pass _ none :: _ => false
  | _ => true

/-- A call of the guest function is made, rather than skipped. -/
def callsBack (fn : Nat) : Bool :=
  s.executing && fn ≠ 0 && s.cbDepth < cbMaxDepth

/-- The start of `call_guest_cb` and `call_guest_cb64`. -/
def callGuestCb (fn : Nat) : TidState :=
  if s.callsBack fn then
    { s with cbDepth := s.cbDepth + 1, frames := .callback s.currentTid none :: s.frames }
  else s

/-- The handler `pthread_kill` finds for the signal, zero if there is none it can call. -/
def handlerOf (sig : Nat) : Nat :=
  match s.sighandlers.lookup sig with
  | some handler => if 1 < handler then handler else 0
  | none => 0

/-- `SVC_PTHREAD_KILL` up to the first instruction of the handler. A skipped call leaves the
saved id behind. -/
def svcPthreadKill (target sig : Nat) : TidState :=
  if s.callsBack (s.handlerOf sig) then
    { s with
        currentTid := target
        cbDepth := s.cbDepth + 1
        frames := .callback target (some s.currentTid) :: s.frames }
  else s

/-- One event; a pass is not entered from within a pass. -/
def step : TidOp → TidState
  | .passBegins =>
    if s.executing ∧ s.scheduling = false then
      { s with scheduling := true, frames := .pass s.currentTid none :: s.frames }
    else s
  | .sliceBegins tid =>
    match s.frames with
    | .pass prevTid none :: rest =>
      { s.setCurTid tid with frames := .pass prevTid (some tid) :: rest }
    | _ => s
  | .sliceEnds =>
    match s.frames with
    | .pass prevTid (some _) :: rest =>
      -- the A32 loop leaves the id of the slice until the next slice or the end of the pass
      { (if s.isArm64 then s.setCurTid prevTid else s) with
          frames := .pass prevTid none :: rest }
    | _ => s
  | .passEnds =>
    match s.frames with
    | .pass prevTid none :: rest => { s.setCurTid prevTid with scheduling := false, frames := rest }
    | _ => s
  | .callback fn => s.callGuestCb fn
  | .callbackReturns =>
    match s.frames with
    | .callback prevTid savedTid :: rest =>
      { s with
          currentTid := savedTid.getD prevTid
          cbDepth := s.cbDepth - 1
          frames := rest }
    | _ => s
  | .signal sig handler =>
    if 1 < handler then { s with sighandlers := (sig, handler) :: s.sighandlers } else s
  | .kill target sig => s.svcPthreadKill target sig

/-- The three places name the thread: the word where there are stubs to read it, the thread
pointers on A64. -/
structure Names (s : TidState) (thread : Nat) : Prop where
  id : tlsKey s.currentTid = thread
  word : s.fastmutexLockVa ≠ 0 → tlsKey (sub32 s.curTidWord 1) = thread
  tpidr : s.isArm64 = true → s.tpidrByTid.lookup thread = some s.tpidrEl0
  tpidrro : s.isArm64 = true → s.tpidrByTid.lookup thread = some s.tpidrroEl0

/-- Whenever guest code can execute, the three places name one thread. -/
def Coherent : Prop := s.executing = true → ∃ thread, s.Names thread

/-- A signal is handled by the thread that is running. -/
def KillsItself : TidOp → Prop
  | .kill target sig => s.callsBack (s.handlerOf sig) = true → tlsKey target = tlsKey s.currentTid
  | _ => True

instance killsItselfDecidable : ∀ op, Decidable (s.KillsItself op)
  | .kill _ _ => inferInstanceAs (Decidable (_ → _ = _))
  | .passBegins | .sliceBegins _ | .sliceEnds | .passEnds | .callback _ | .callbackReturns
  | .signal _ _ => isTrue trivial

/-! ## Switching -/

theorem sub32_add_one : sub32 (u32 (tid + 1)) 1 = u32 tid := by
  simp only [sub32, u32]
  omega

theorem tlsKey_u32 : tlsKey (u32 tid) = tlsKey tid := by
  have hidem : u32 (u32 tid) = u32 tid := Nat.mod_mod ..
  rw [tlsKey, hidem, tlsKey]

theorem lookup_arm64TlsForTid (tpidrByTid : List (Nat × Nat)) (tid : Nat) :
    (arm64TlsForTid tpidrByTid tid).1.lookup (tlsKey tid) =
      some (arm64TlsForTid tpidrByTid tid).2 := by
  unfold arm64TlsForTid
  split
  · rename_i tls hfound
    exact hfound
  · simp

theorem setCurTid_gates : (s.setCurTid tid).isArm64 = s.isArm64 ∧
      (s.setCurTid tid).fastmutexLockVa = s.fastmutexLockVa := by
  simp only [setCurTid]
  split <;> split <;> exact ⟨rfl, rfl⟩

/-- `set_cur_tid` makes the three places name the thread, whatever they named before. -/
theorem names_setCurTid : (s.setCurTid tid).Names (tlsKey tid) := by
  have hword : tlsKey (sub32 (u32 (tid + 1)) 1) = tlsKey tid := by rw [sub32_add_one, tlsKey_u32]
  have htls := lookup_arm64TlsForTid s.tpidrByTid tid
  obtain ⟨harm, hlock⟩ := s.setCurTid_gates tid
  refine ⟨?_, ?_, ?_, ?_⟩
  · simp only [setCurTid]
    split <;> split <;> rfl
  · intro hstubs
    rw [hlock] at hstubs
    simpa [setCurTid, hstubs] using hword
  · intro h64
    rw [harm] at h64
    simp only [setCurTid]
    split <;> exact htls
  · intro h64
    rw [harm] at h64
    simp only [setCurTid]
    split <;> exact htls

/-! ## Nested frames -/

/-- The thread the innermost frame runs as. -/
def home : List Frame → Nat
  | [] => tlsKey 0
  | .pass prevTid slice :: _ => tlsKey (slice.getD prevTid)
  | .callback prevTid _ :: _ => tlsKey prevTid

/-- Every frame gives the thread it found back, and a callback runs as that thread. -/
inductive Chained : List Frame → Prop
  | main : Chained []
  | pass {prevTid : Nat} {slice : Option Nat} {rest : List Frame}
      (hprev : tlsKey prevTid = home rest) (hrest : Chained rest) :
      Chained (.pass prevTid slice :: rest)
  | callback {prevTid : Nat} {savedTid : Option Nat} {rest : List Frame}
      (hprev : tlsKey prevTid = home rest) (hsaved : tlsKey (savedTid.getD prevTid) = home rest)
      (hrest : Chained rest) : Chained (.callback prevTid savedTid :: rest)

/-- The frames are chained, and while guest code can execute the three places name the thread
of the innermost one. -/
structure AtHome (s : TidState) : Prop where
  chained : Chained s.frames
  names : s.executing = true → s.Names (home s.frames)

variable {s : TidState}

section

variable (h : s.AtHome)
include h

theorem AtHome.passBegins : (s.step .passBegins).AtHome := by
  simp only [step]
  split
  · rename_i hexec
    have hprev : tlsKey s.currentTid = home s.frames := (h.names hexec.1).id
    exact ⟨.pass hprev h.chained, nofun⟩
  · exact h

theorem AtHome.sliceBegins (tid : Nat) : (s.step (.sliceBegins tid)).AtHome := by
  simp only [step]
  split
  · rename_i prevTid rest hframes
    have hchained := h.chained
    rw [hframes] at hchained
    cases hchained with
    | pass hprev hrest =>
      have hnamed := s.names_setCurTid tid
      refine ⟨.pass hprev hrest, fun _ => ?_⟩
      exact { hnamed with }
  · exact h

theorem AtHome.sliceEnds : (s.step .sliceEnds).AtHome := by
  simp only [step]
  split
  · rename_i prevTid tid rest hframes
    have hchained := h.chained
    rw [hframes] at hchained
    cases hchained with
    | pass hprev hrest => exact ⟨.pass hprev hrest, nofun⟩
  · exact h

theorem AtHome.passEnds : (s.step .passEnds).AtHome := by
  simp only [step]
  split
  · rename_i prevTid rest hframes
    have hchained := h.chained
    rw [hframes] at hchained
    cases hchained with
    | pass hprev hrest =>
      have hnamed := s.names_setCurTid prevTid
      rw [hprev] at hnamed
      refine ⟨hrest, fun _ => ?_⟩
      exact { hnamed with }
  · exact h

theorem AtHome.callGuestCb (fn : Nat) : (s.callGuestCb fn).AtHome := by
  rw [TidState.callGuestCb]
  split
  · have hnamed : s.Names (home s.frames) := h.names (by simp_all [callsBack])
    refine ⟨.callback hnamed.id hnamed.id h.chained, fun _ => ?_⟩
    rw [home, hnamed.id]
    exact { hnamed with }
  · exact h

theorem AtHome.kill {target sig : Nat} (hself : s.KillsItself (.kill target sig)) :
    (s.svcPthreadKill target sig).AtHome := by
  rw [svcPthreadKill]
  split
  · rename_i hcall
    have hnamed : s.Names (home s.frames) := h.names (by simp_all [callsBack])
    have htarget : tlsKey target = home s.frames := (hself hcall).trans hnamed.id
    refine ⟨.callback htarget hnamed.id h.chained, fun _ => ?_⟩
    rw [home, htarget]
    exact { hnamed with id := htarget }
  · exact h

theorem AtHome.callbackReturns : (s.step .callbackReturns).AtHome := by
  simp only [step]
  split
  · rename_i prevTid savedTid rest hframes
    have hchained := h.chained
    have hnamed := h.names (by rw [executing, hframes])
    rw [hframes] at hchained hnamed
    cases hchained with
    | callback hprev hsaved hrest =>
      rw [home, hprev] at hnamed
      exact ⟨hrest, fun _ => { hnamed with id := hsaved }⟩
  · exact h

theorem AtHome.signal (sig handler : Nat) : (s.step (.signal sig handler)).AtHome := by
  simp only [step]
  split
  · refine ⟨h.chained, fun hexec => ?_⟩
    have hnamed := h.names hexec
    exact { hnamed with }
  · exact h

end

theorem AtHome.step {op : TidOp} (h : s.AtHome) (hop : s.KillsItself op) : (s.step op).AtHome := by
  cases op with
  | passBegins => exact h.passBegins
  | sliceBegins tid => exact h.sliceBegins tid
  | sliceEnds => exact h.sliceEnds
  | passEnds => exact h.passEnds
  | callback fn => exact h.callGuestCb fn
  | callbackReturns => exact h.callbackReturns
  | signal sig handler => exact h.signal sig handler
  | kill target sig => exact h.kill hop

theorem atHome_initial : (initial isArm64).AtHome := by
  cases isArm64 with
  | false => exact ⟨.main, fun _ => ⟨rfl, fun _ => by decide, nofun, nofun⟩⟩
  | true => exact ⟨.main, fun _ => ⟨rfl, absurd rfl, fun _ => rfl, fun _ => rfl⟩⟩

/-! ## Coherence along a run -/

/-- **In a run in which signals are only handled by the threads that send them**, the three
places name one thread whenever guest code can execute. -/
theorem coherent_of_run (isArm64 : Bool) {ops : List TidOp}
    (hops : StepsMeet KillsItself TidState.step (initial isArm64) ops) :
    (run TidState.step (initial isArm64) ops).Coherent := by
  have hend := run_invariant (fun _ _ h hop => h.step hop) (atHome_initial isArm64) hops
  intro hexec
  exact ⟨_, hend.names hexec⟩

theorem not_coherent_of_word (hexec : s.executing) (hstubs : s.fastmutexLockVa ≠ 0)
    (hword : tlsKey (sub32 s.curTidWord 1) ≠ tlsKey s.currentTid) : ¬ s.Coherent := by
  intro h
  obtain ⟨thread, hnamed⟩ := h hexec
  exact hword ((hnamed.word hstubs).trans hnamed.id.symm)

theorem not_coherent_of_tpidr (hexec : s.executing) (h64 : s.isArm64)
    (htpidr : s.tpidrByTid.lookup (tlsKey s.currentTid) ≠ some s.tpidrEl0) : ¬ s.Coherent := by
  intro h
  obtain ⟨thread, hnamed⟩ := h hexec
  exact htpidr (hnamed.id ▸ hnamed.tpidr h64)

/-- Thread 2 signals itself; its handler makes a callback; then the slice of thread 3 begins. -/
def signalsItself : List TidOp :=
  [.signal 30 0x202e1429, .passBegins, .sliceBegins 2, .kill 2 30, .callback 0x10000,
    .callbackReturns, .callbackReturns, .sliceEnds, .sliceBegins 3]

theorem coherent_signalsItself :
    (run TidState.step (initial false) signalsItself).executing = true ∧
    (run TidState.step (initial false) signalsItself).Coherent ∧
    (run TidState.step (initial true) signalsItself).executing = true ∧
    (run TidState.step (initial true) signalsItself).Coherent :=
  ⟨rfl, coherent_of_run false (by decide), rfl, coherent_of_run true (by decide)⟩

def signalsOther : List TidOp := [.signal 30 0x202e1429, .kill 2 30]

/-- The handler waits, which makes a pass, and returns. -/
def waitsInHandler : List TidOp := signalsOther ++ [.passBegins, .passEnds, .callbackReturns]

/-- While the handler runs, word and thread pointer name the main thread; once it has waited and
returned, they name thread 2 in the main thread. -/
theorem not_coherent_signalsOther : ¬ (run TidState.step (initial false) signalsOther).Coherent ∧
    ¬ (run TidState.step (initial true) signalsOther).Coherent ∧
    ¬ (run TidState.step (initial false) waitsInHandler).Coherent ∧
    ¬ (run TidState.step (initial true) waitsInHandler).Coherent := by
  refine ⟨?_, ?_, ?_, ?_⟩
  · exact not_coherent_of_word rfl (by decide) (by decide)
  · exact not_coherent_of_tpidr rfl rfl (by decide)
  · exact not_coherent_of_word rfl (by decide) (by decide)
  · exact not_coherent_of_tpidr rfl rfl (by decide)

end TidState

end Lunaria
