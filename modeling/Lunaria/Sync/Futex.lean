/-
# Futexes

`FUTEX_WAKE` does not look for the workers that are parked on the word. It leaves tokens
at the address, and the pass hands one to each parked worker it comes past. A
`FUTEX_WAIT` that is called in between consumes a token as well, and so does the loop of
the main thread.

A worker to which a wake is owed is therefore unparked in time as long as nobody takes the
token meant for it: whoever takes one leaves at least one for every worker that still has
to be unparked. The wake itself must leave enough of them, which the cap of 256 and the
width of the counter decide.
-/

import Lunaria.Lib.WakeTokens
import Lunaria.Sync.Passes

namespace Lunaria

open Lib List Option Function

/-! ## The property -/

namespace Sched

/-- The tokens of the address that are needed for workers still to be unparked. -/
def owedOn (s : Sched) (uaddr : Nat) : List Debt := debtsOn Debt.addr s.owed uaddr

/-- A wake for all parked workers of an address unparks each of them before the pass after
the one of the wake ends. -/
structure FutexWakes (cfg : SchedConfig) (s : Sched) : Prop where
  inTime : ∀ d ∈ s.owed, s.passes ≤ d.pass + 1
  all : s.Running → ∀ uaddr n, 0x1000 ≤ uaddr → (s.parkedOn uaddr).length ≤ n →
    ∀ i ∈ s.parkedOn uaddr, ∃ d ∈ (s.step cfg (.futexWake uaddr n)).owed,
      d.worker = i ∧ d.addr = uaddr

/-- Taking a token of the address leaves one for every worker still to be unparked. -/
def SpareToken (s : Sched) (uaddr val : Nat) : Prop :=
  s.mem uaddr = val → 0 < s.tokens uaddr → (s.owedOn uaddr).length < s.tokens uaddr
  deriving Decidable

/-- Nobody takes a token that is owed, and a wake for all parked workers leaves enough. -/
def NotOvertaken (s : Sched) : SchedOp → Prop
  | .futexWait uaddr val => 0x1000 ≤ uaddr → s.SpareToken uaddr val
  | .futexWake uaddr n => 0x1000 ≤ uaddr →
      s.tokens uaddr + nwake n < 2 ^ 32 ∧
        ((s.parkedOn uaddr).length ≤ n → (s.parkedOn uaddr).length ≤ 256)
  | .poll =>
    match s.main with
    | some (.futex uaddr val _) => s.SpareToken uaddr val
    | _ => True
  | _ => True

instance notOvertakenDecidable (s : Sched) : ∀ op, Decidable (s.NotOvertaken op)
  | .futexWait _ _ => inferInstanceAs (Decidable (_ → _))
  | .futexWake _ _ => inferInstanceAs (Decidable (_ → _ ∧ (_ → _)))
  | .poll =>
    match h : s.main with
    | some (.futex uaddr val _) =>
      decidable_of_iff (s.SpareToken uaddr val) (by simp [NotOvertaken, h])
    | some (.sem ..) | some (.cond ..) | none => .isTrue (by simp [NotOvertaken, h])
  | .pass | .visit | .endSlice .. | .create .. | .store .. | .semPost _ | .semTrywait _
  | .semWait .. | .condWait .. | .condTimedwait .. | .condSignal _ | .condBroadcast _ =>
    .isTrue trivial

end Sched

/-! ## Where the workers are parked -/

def Worker.place (t : Worker) : Option Nat :=
  if t.waitingFutex = 0 then none else some t.waitingFutex

namespace Sched

def place (s : Sched) (i : Nat) : Option Nat := s.workers[i]?.bind Worker.place

variable {cfg : SchedConfig} {s s' : Sched} {i : Nat} {t : Worker} {d : Debt}

theorem place_eq (ht : s.workers[i]? = some t) : s.place i = t.place := by
  simp [place, ht]

theorem place_eq_some {uaddr : Nat} (ht : s.workers[i]? = some t) (hne : uaddr ≠ 0)
    (hf : t.waitingFutex = uaddr) : s.place i = some uaddr := by
  rw [place_eq ht, Worker.place, hf, if_neg hne]

theorem place_eq_none (ht : s.workers[i]? = some t) (hf : t.waitingFutex = 0) :
    s.place i = none := by
  rw [place_eq ht, Worker.place, if_pos hf]

variable {u : Worker}

theorem place_set (ht : s.workers[i]? = some t)
    (hw : s'.workers = s.workers.set i u) : s'.place = update s.place i u.place := by
  have hi := (List.getElem?_eq_some_iff.mp ht).1
  funext j
  by_cases hj : j = i
  · subst hj
    rw [update_self]
    exact place_eq (by rw [hw, getElem?_set_self hi])
  · rw [update_of_ne hj, place, place, hw, getElem?_set_ne (Ne.symm hj)]

theorem place_set_self (ht : s.workers[i]? = some t)
    (hw : s'.workers = s.workers.set i u) (hu : u.waitingFutex = t.waitingFutex) :
    s'.place = s.place := by
  have hplace : u.place = s.place i := by rw [place_eq ht, Worker.place, Worker.place, hu]
  rw [place_set ht hw, hplace, update_eq_self]

theorem place_ended (ht : s.workers[i]? = some t) (f : Worker → Worker) :
    (s.ended i f).place = update s.place i (f t).place := by
  funext j
  by_cases hj : j = i
  · subst hj
    rw [update_self]
    refine place_eq ?_
    simp [ended, ht]
  · rw [update_of_ne hj, place, place, ended]
    simp [getElem?_modify_ne _ _ (Ne.symm hj)]

variable {f : Worker → Worker}

theorem place_ended_self (ht : s.workers[i]? = some t)
    (hf : (f t).waitingFutex = t.waitingFutex) : (s.ended i f).place = s.place := by
  have hplace : (f t).place = s.place i := by rw [place_eq ht, Worker.place, Worker.place, hf]
  rw [place_ended ht, hplace, update_eq_self]

theorem place_created (id entryPc arg : Nat) :
    { s with workers := s.workers ++ [Worker.created id entryPc arg] }.place = s.place := by
  funext j
  simp only [place, getElem?_append]
  split
  · rfl
  rename_i hj
  rw [getElem?_eq_none (not_lt.mp hj)]
  cases hk : [Worker.created id entryPc arg][j - s.workers.length]? with
  | none => rfl
  | some u =>
    obtain rfl := mem_singleton.mp (mem_of_getElem? hk)
    rfl

theorem place_wakeAll (cond : Nat) (woken : List Nat) : (s.wakeAll cond woken).place = s.place := by
  funext j
  cases ht : s.workers[j]? with
  | none => simp [place, wakeAll, ht]
  | some t =>
    rw [place_eq ht, place_eq (wakeAll_getElem? ht cond woken)]
    split <;> rfl

theorem mem_parkedOn {uaddr : Nat} (hne : uaddr ≠ 0) :
    i ∈ s.parkedOn uaddr ↔ s.place i = some uaddr := by
  simp only [parkedOn, mem_indicesWhere, beq_iff_eq]
  constructor
  · rintro ⟨t, ht, hf⟩
    exact place_eq_some ht hne hf
  intro hplace
  obtain ⟨t, ht, hf⟩ := bind_eq_some_iff.mp hplace
  refine ⟨t, ht, ?_⟩
  unfold Worker.place at hf
  split at hf
  · exact absurd hf (by simp)
  · exact some.inj hf

/-! ## Every event keeps the accounts -/

/-- The wakes on record are covered by tokens and not late. -/
structure Owes (s : Sched) : Prop where
  tidy : s.Tidy
  owing : Owing Debt.worker Debt.addr s.place s.tokens s.owed
  onTime : ∀ d ∈ s.owed, s.OnTime d

theorem Owes.congr (h : s.Owes) (htidy : s'.Tidy) (hplace : s'.place = s.place)
    (htok : s'.tokens = s.tokens) (howed : s'.owed = s.owed) (hn : s'.passes = s.passes)
    (hp : s'.phase = s.phase) : s'.Owes := by
  refine ⟨htidy, ?_, fun d hd => (h.onTime d (howed ▸ hd)).congr hn hp⟩
  rw [hplace, htok, howed]
  exact h.owing

theorem Owes.begun (h : s.Owes) (hp : s.phase = .idle) : s.begun.Owes :=
  ⟨h.tidy.begun, h.owing, fun d hd => (h.onTime d hd).begun hp⟩

theorem Owes.ended (h : s.Owes) (hp : s.phase = .slice i)
    (htidy : (s.ended i f).Tidy) (hf : ∀ t, (f t).waitingFutex = t.waitingFutex) :
    (s.ended i f).Owes := by
  obtain ⟨t, ht, -⟩ := h.tidy.running i hp
  refine ⟨htidy, ?_, fun d hd => (h.onTime d hd).ended hp f⟩
  rw [place_ended_self ht (hf t)]
  exact h.owing

theorem Owes.parks (h : s.Owes) (hp : s.phase = .slice i) {uaddr : Nat}
    (htidy : (s.ended i f).Tidy) (hf : ∀ t, (f t).waitingFutex = uaddr)
    (hzero : s.tokens uaddr = 0) : (s.ended i f).Owes := by
  obtain ⟨t, ht, hfree⟩ := h.tidy.running i hp
  refine ⟨htidy, ?_, fun d hd => (h.onTime d hd).ended hp f⟩
  have hnone := place_eq_none ht hfree.futex
  rw [place_ended ht, Worker.place, hf t]
  by_cases hne : uaddr = 0
  · rw [if_pos hne, ← hnone, update_eq_self]
    exact h.owing
  · rw [if_neg hne]
    exact h.owing.park hnone hzero

section

variable (h : s.Owes) (hp : s.phase = .scan i) (ht : s.workers[i]? = some t)
include h hp ht

theorem Owes.passed (htidy : s'.Tidy) {r : Sched} (hpassed : Passed r i u s')
    (hu : u.waitingFutex = t.waitingFutex) (hw : r.workers = s.workers)
    (hn : r.passes = s.passes) (htok : r.tokens = s.tokens) (howed : r.owed = s.owed)
    (hne : ∀ d ∈ s.owed, d.worker ≠ i) : s'.Owes := by
  obtain ⟨n, fin, hset⟩ := hpassed.record
  rw [hw] at hset
  have howed' : s'.owed = s.owed := hpassed.owed.trans howed
  refine ⟨htidy, ?_, fun d hd => ?_⟩
  · rw [place_set_self ht hset hu, hpassed.tokens, htok, howed']
    exact h.owing
  · have hd' := howed' ▸ hd
    exact (h.onTime d hd').past hp (hne d hd') (hpassed.passes.trans hn) hpassed.phase

theorem Owes.unparked (htidy : s'.Tidy) {r : Sched}
    (hpassed : Passed r i { t with waitingFutex := 0 } s') (hw : r.workers = s.workers)
    (hn : r.passes = s.passes)
    (howed : r.owed = settle Debt.worker s.owed i)
    (howing : Owing Debt.worker Debt.addr (update s.place i none) r.tokens
      (settle Debt.worker s.owed i)) : s'.Owes := by
  obtain ⟨n, fin, hset⟩ := hpassed.record
  rw [hw] at hset
  have howed' := hpassed.owed.trans howed
  refine ⟨htidy, ?_, fun d hd => ?_⟩
  · rw [place_set ht hset, hpassed.tokens, howed']
    exact howing
  · obtain ⟨hd, hne⟩ := mem_filter.mp (howed' ▸ hd)
    exact (h.onTime d hd).past hp (by simpa using hne) (hpassed.passes.trans hn) hpassed.phase

theorem Owes.visited (hv : Visited cfg s i t s') : s'.Owes := by
  have htidy' := h.tidy.visited ht hv
  have htidy := (h.tidy.workers i t ht).2
  -- nothing is owed to a worker that is not parked on a futex
  have hfree : t.waitingFutex = 0 → ∀ d ∈ s.owed, d.worker ≠ i := fun hf d hd =>
    h.owing.ne_of_unparked (place_eq_none ht hf) hd
  have hempty : t.waitingFutex ≠ 0 → s.tokens t.waitingFutex = 0 → ∀ d ∈ s.owed, d.worker ≠ i :=
    fun hf hzero d hd => h.owing.ne_of_no_token (place_eq_some ht hf rfl) hzero hd
  cases hv with
  | blocked why =>
    refine h.passed hp ht htidy' (leave_passed s i t) rfl rfl rfl rfl rfl ?_
    rcases why with hfin | hc | hs | ⟨hf, hzero⟩
    · refine hfree (of_not_not fun hf => ?_)
      exact absurd (hfin.symm.trans (htidy.futex hf)) (by simp)
    · exact hfree (htidy.cond hc).2.2.1
    · exact hfree (htidy.sem hs).2.1
    · exact hempty hf hzero
  | counted hs =>
    exact h.passed hp ht htidy' (leave_passed s i _) rfl rfl rfl rfl rfl (hfree (htidy.sem hs).2.1)
  | free hf =>
    exact h.passed hp ht htidy' (resume_passed cfg s i t) rfl rfl rfl rfl rfl (hfree hf.futex)
  | granted hs | timedOut hs =>
    exact h.passed hp ht htidy' (resume_passed cfg _ i _) rfl rfl rfl rfl rfl
      (hfree (htidy.sem hs).2.1)
  | token hf =>
    exact h.unparked hp ht htidy' (resume_passed cfg _ i _) rfl rfl rfl
      (h.owing.unpark_token (place_eq_some ht hf rfl))
  | changed hf =>
    exact h.unparked hp ht htidy' (resume_passed cfg _ i _) rfl rfl rfl (h.owing.unpark_free i)

end

variable {uaddr n : Nat}

theorem mem_newlyWoken : i ∈ s.newlyWoken uaddr n ↔
      (s.parkedOn uaddr).length ≤ n ∧ i ∈ s.parkedOn uaddr ∧ ∀ d ∈ s.owed, d.worker ≠ i := by
  unfold newlyWoken
  split
  case isTrue hn => simp [hn]
  case isFalse hn => simp [hn]

theorem exists_owed_of_wake (hn : (s.parkedOn uaddr).length ≤ n) (hi : i ∈ s.parkedOn uaddr) :
    ∃ d ∈ s.owed ++ (s.newlyWoken uaddr n).map fun i => ⟨i, uaddr, s.passes⟩, d.worker = i := by
  by_cases howed : ∃ d ∈ s.owed, d.worker = i
  · obtain ⟨d, hd, hwho⟩ := howed
    exact ⟨d, mem_append_left _ hd, hwho⟩
  · have hnew : i ∈ s.newlyWoken uaddr n :=
      mem_newlyWoken.mpr ⟨hn, hi, fun d hd hwho => howed ⟨d, hd, hwho⟩⟩
    exact ⟨_, mem_append_right _ (mem_map_of_mem hnew), rfl⟩

theorem length_newlyWoken_le
    (hcap : (s.parkedOn uaddr).length ≤ n → (s.parkedOn uaddr).length ≤ 256) :
    (s.newlyWoken uaddr n).length ≤ nwake n := by
  unfold newlyWoken nwake
  split
  case isTrue hn =>
    have hle := length_filter_le
      (fun i => s.owed.all fun d => decide (d.worker ≠ i)) (s.parkedOn uaddr)
    split <;> omega
  case isFalse => exact Nat.zero_le _

section

variable (h : s.Owes)
include h

theorem Owes.wakes (hop : s.NotOvertaken (.futexWake uaddr n)) : (s.svcFutexWake uaddr n).Owes := by
  unfold svcFutexWake
  split
  case isTrue => exact h
  case isFalse haddr =>
    have hne : uaddr ≠ 0 := fun hzero => haddr (hzero ▸ by decide)
    obtain ⟨hfits, hcap⟩ := hop (not_lt.mp haddr)
    refine ⟨h.tidy.congr rfl rfl id, ?_, ?_⟩
    · rw [Nat.mod_eq_of_lt hfits]
      refine h.owing.wake ?_ ?_ ?_
      · intro d hd
        obtain ⟨i, hi, rfl⟩ := mem_map.mp hd
        exact ⟨(mem_parkedOn hne).mp (mem_newlyWoken.mp hi).2.1, rfl⟩
      · rw [length_map]
        exact length_newlyWoken_le hcap
      · intro hnew j hj
        obtain ⟨d, hd⟩ := exists_mem_of_ne_nil _ hnew
        obtain ⟨i, hi, -⟩ := mem_map.mp hd
        exact exists_owed_of_wake (mem_newlyWoken.mp hi).1 ((mem_parkedOn hne).mpr hj)
    · intro d hd
      rcases mem_append.mp hd with hd | hd
      · exact (h.onTime d hd).congr rfl rfl
      · obtain ⟨i, -, rfl⟩ := mem_map.mp hd
        exact .inl rfl

theorem Owes.takes {val : Nat} (hspare : s.SpareToken uaddr val)
    (hval : s.mem uaddr = val) (hpos : 0 < s.tokens uaddr) : (s.takeToken uaddr).Owes :=
  ⟨h.tidy.congr rfl rfl id, h.owing.take (hspare hval hpos),
    fun d hd => (h.onTime d hd).congr rfl rfl⟩

theorem Owes.writeMutex (mutex word : Nat) : (s.writeMutex mutex word).Owes := by
  obtain ⟨mem, heq⟩ := s.writeMutex_eq mutex word
  rw [heq]
  exact h.congr (h.tidy.congr rfl rfl id) rfl rfl rfl rfl rfl

theorem Owes.wakeAll (cond : Nat) (woken : List Nat) : (s.wakeAll cond woken).Owes :=
  h.congr (h.tidy.wakeAll cond woken) (place_wakeAll cond woken) rfl rfl rfl rfl

theorem Owes.called {op : SchedOp} (hop : s.NotOvertaken op)
    (hc : Called cfg s op s') : s'.Owes := by
  have htidy := h.tidy.called hc
  cases hc with
  | unchanged => exact h
  | created => exact h.congr htidy (place_created ..) rfl rfl rfl rfl
  | stored | posted | tryTook | tryRefused | waitInCallback | waitTook | waitRefused | waitLoops
  | futexLoops => exact h.congr htidy rfl rfl rfl rfl rfl
  | waitNull timed _ hp =>
    have hanswer : (s.semAnswer 0 timed 0).Owes :=
      h.congr (h.tidy.congr rfl rfl id) rfl rfl rfl rfl rfl
    exact hanswer.ended hp htidy fun _ => rfl
  | waitParks _ _ _ hp => exact h.ended hp htidy fun _ => rfl
  | futexWoke => exact h.wakes hop
  | futexTook uaddr val hhigh hval hpos => exact h.takes (hop hhigh) hval hpos
  | futexParks uaddr val hp hzero => exact h.parks hp htidy (fun _ => rfl) hzero
  | condTook cond | timedTook cond =>
    obtain ⟨conds, heq⟩ := s.takeCond_eq cond
    rw [heq]
    exact h.congr (h.tidy.congr rfl rfl id) rfl rfl rfl rfl rfl
  | condAlone _ mutex | timedAlone _ mutex => exact h.writeMutex mutex _
  | condLoops _ mutex | timedLoops _ mutex =>
    exact (h.writeMutex mutex 0).congr htidy rfl rfl rfl rfl rfl
  | condParks _ mutex hp | timedYields _ mutex hp =>
    exact (h.writeMutex mutex _).ended ((writeMutex_phase ..).trans hp) htidy fun _ => rfl
  | condSignalled cond =>
    obtain ⟨woken, conds, -, heq⟩ := s.svcCondSignal_eq cond
    rw [heq] at htidy ⊢
    exact (h.wakeAll cond woken).congr htidy rfl rfl rfl rfl rfl
  | condBroadcast cond =>
    obtain ⟨woken, conds, -, heq⟩ := s.svcCondBroadcast_eq cond
    rw [heq] at htidy ⊢
    exact (h.wakeAll cond woken).congr htidy rfl rfl rfl rfl rfl

theorem Owes.polled (hop : s.NotOvertaken .poll) (hp : Polled s s') : s'.Owes := by
  have htidy := h.tidy.polled hp
  cases hp with
  | unchanged => exact h
  | semTook | semFailed | futexDone => exact h.congr htidy rfl rfl rfl rfl rfl
  | @futexTook uaddr val left hm hval hpos =>
    have hspare : s.SpareToken uaddr val := by simpa [NotOvertaken, hm] using hop
    exact (h.takes hspare hval hpos).congr htidy rfl rfl rfl rfl rfl
  | semAgain _ hidle | futexAgain _ hidle | condAgain _ hidle =>
    exact (h.begun hidle).congr htidy rfl rfl rfl rfl rfl
  | condDone => exact (h.writeMutex ..).congr htidy rfl rfl rfl rfl rfl

theorem Owes.stepped {op : SchedOp} (hop : s.NotOvertaken op)
    (hs : Stepped cfg s op s') : s'.Owes := by
  have htidy := h.tidy.stepped hs
  cases hs with
  | unchanged => exact h
  | passBegins hidle => exact h.begun hidle
  | passEnds hp hlast =>
    refine ⟨htidy, h.owing, fun d hd => (h.onTime d hd).passEnds hp hlast ?_⟩
    obtain ⟨t, ht, -⟩ := bind_eq_some_iff.mp (h.owing.parked d hd)
    exact (List.getElem?_eq_some_iff.mp ht).1
  | visited hp ht hv => exact h.visited hp ht hv
  | sliceEnds hp => exact h.ended hp htidy fun _ => rfl
  | polled hp => exact h.polled hop hp
  | called _ hc => exact h.called hop hc

/-! ## Runs -/

theorem Owes.futexWakes : s.FutexWakes cfg where
  inTime := fun d hd => (h.onTime d hd).le
  all := by
    intro hrun uaddr n hhigh hn i hi
    have hne : uaddr ≠ 0 := fun hzero => absurd hhigh (hzero ▸ by decide)
    have hstep : (s.step cfg (.futexWake uaddr n)).owed =
        s.owed ++ (s.newlyWoken uaddr n).map fun i => ⟨i, uaddr, s.passes⟩ := by
      have hcall : s.step cfg (.futexWake uaddr n) = s.svcFutexWake uaddr n := hrun.called_eq _
      rw [hcall, svcFutexWake, if_neg (not_lt.mpr hhigh)]
    rw [hstep]
    obtain ⟨d, hd, hwho⟩ := exists_owed_of_wake hn hi
    refine ⟨d, hd, hwho, ?_⟩
    rcases mem_append.mp hd with hd | hd
    · have hplace := h.owing.parked d hd
      rw [hwho, (mem_parkedOn hne).mp hi] at hplace
      exact (some.inj hplace).symm
    · obtain ⟨j, -, rfl⟩ := mem_map.mp hd
      rfl

end

/-- **In every run in which nobody takes a token that is owed, a wake for all workers of an address
unparks each in time.** -/
theorem futexWakes_of_run (cfg : SchedConfig) (mem : Nat → Nat) (sems : Nat → Int)
    (ops : List SchedOp) (hops : StepsMeet NotOvertaken (step cfg) (initial mem sems) ops) :
    (run (step cfg) (initial mem sems) ops).FutexWakes cfg := by
  have hstart : (initial mem sems).Owes :=
    ⟨tidy_initial mem sems, ⟨fun d hd => absurd hd not_mem_nil, fun a => Nat.zero_le _,
        fun d hd => absurd hd not_mem_nil⟩, fun d hd => absurd hd not_mem_nil⟩
  have hend := run_invariant (fun _ op h hop => h.stepped hop (step_stepped h.tidy op)) hstart hops
  exact hend.futexWakes

/-! ## Two runs -/

def a64Config : SchedConfig := ⟨true, 500, fun _ => true⟩

/-- Two workers park on the word at `0x20000` and the main thread wakes both. -/
def bothParked : List SchedOp :=
  [.create 0x10000 0, .create 0x10000 0, .pass, .visit, .futexWait 0x20000 0, .visit,
    .futexWait 0x20000 0, .visit, .futexWake 0x20000 2]

theorem futexWakes_bothParked :
    (run (step a64Config) (initial (fun _ => 0) fun _ => 0) bothParked).owed =
        [⟨0, 0x20000, 1⟩, ⟨1, 0x20000, 1⟩] ∧
      (run (step a64Config) (initial (fun _ => 0) fun _ => 0) bothParked).FutexWakes a64Config :=
  ⟨by decide, futexWakes_of_run a64Config _ _ bothParked (by decide)⟩

/-- The second worker parks at `0x20000` and is woken; in the next pass the first comes first and
waits on the same word. -/
def tokenStolen : List SchedOp :=
  [.create 0x10000 0, .create 0x10000 0, .pass, .visit, .endSlice 0 0 false, .visit,
    .futexWait 0x20000 0, .visit, .futexWake 0x20000 1, .pass, .visit, .futexWait 0x20000 0,
    .endSlice 0 0 false, .visit, .visit, .pass]

/-- A whole pass has gone by and the woken worker is still parked. -/
theorem not_futexWakes_tokenStolen :
    ¬ (run (step a64Config) (initial (fun _ => 0) fun _ => 0) tokenStolen).FutexWakes
      a64Config := by
  intro h
  exact absurd (h.inTime ⟨1, 0x20000, 1⟩ (by decide)) (by decide)

end Sched

end Lunaria
