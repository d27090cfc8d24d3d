/-
# Wrappers of the C library

The finalizers, checked searches, signal masks and `execv` of `libc.c` and the deadlines of
`pthread.c`. Each misses by a little: the loop over the finalizers starts at their terminator, a
search compares before it converts, a mask has a different lower end in each direction, a bound is
in bytes, and a monotonic wait counts the clock twice.
-/

import Mathlib.Data.List.Basic
import Mathlib.Data.Nat.Bitwise
import Mathlib.Tactic.NormNum

namespace Lunaria.Native

open List

/-- `LONG_BIT`, for the builds with `-m64` and `-m32`. -/
def longBit (m64 : Bool) : Nat := if m64 then 64 else 32

/-! ## Finalizers -/

section Finalizers

variable (m64 : Bool)

/-- The value `(size_t)~0` of the entries that are no functions. -/
def noFunction : Nat := 2 ^ longBit m64 - 1

/-- The second loop of `__libc_fini`: what it calls, with `count` going down. -/
def finiCalls (finiArray : List Nat) : Nat → List Nat
  | 0 => []
  | count + 1 =>
    let fini := finiArray.getD (count + 1) 0
    if fini ≠ noFunction m64 then fini :: finiCalls finiArray count else finiCalls finiArray count

/-- `__libc_fini`; the first loop counts up to the terminator. -/
def libcFini : List Nat → List Nat
  | [] => []
  | first :: finiArray =>
    if first ≠ noFunction m64 then []
    else finiCalls m64 finiArray (finiArray.takeWhile (· ≠ 0)).length

/-- **The finalizers run in reverse order only if there are none**: the first entry the second loop
looks at is the terminator, and it is called. -/
theorem libcFini_iff :
    (∀ array, array.head? ≠ some (noFunction m64) → libcFini m64 array = []) ∧
      ∀ fs : List Nat, 0 ∉ fs → (libcFini m64 (noFunction m64 :: (fs ++ [0])) =
        (fs.filter (· ≠ noFunction m64)).reverse ↔ fs = []) := by
  constructor
  · rintro (_ | ⟨first, finiArray⟩) h
    · rfl
    · exact if_pos (by simpa using h)
  intro fs hfs
  have hcount : ((fs ++ [0]).takeWhile (· ≠ 0)).length = fs.length := by
    rw [takeWhile_append_of_pos fun f hf => decide_eq_true (ne_of_mem_of_not_mem hf hfs)]
    simp
  rw [libcFini, if_neg (not_not_intro rfl), hcount]
  constructor
  · intro h
    cases hn : fs.length with
    | zero => exact length_eq_zero_iff.mp hn
    | succ n =>
      have hcalled : 0 ∈ finiCalls m64 (fs ++ [0]) fs.length := by
        have hlast : (fs ++ [0]).getD (n + 1) 0 = 0 := by simp [← hn]
        rw [hn, finiCalls, hlast, if_pos (by cases m64 <;> decide)]
        exact mem_cons_self
      rw [h, mem_reverse] at hcalled
      exact absurd (mem_of_mem_filter hcalled) hfs
  · rintro rfl
    rfl

end Finalizers

/-- One function: the null pointer is called, and the function is not. -/
theorem libcFini_one : libcFini true [noFunction true, 0x1000, 0] = [0] := by decide

/-! ## The checked searches -/

section Searches

/-- A string, up to its terminator; `char` is signed on the hosts `libc.c` is built for. -/
structure CString where
  chars : List Int8
  nonzero : 0 ∉ chars

def CString.memory (s : CString) : List Int8 := s.chars ++ [0]

variable (ch : Int)

/-- `bionic___strchr_chk` over the memory from `p` on; there is no answer where it aborts or reads
behind that memory. -/
def strchrChk : List Int8 → Nat → Nat → Option (Option Nat)
  | _, 0, _ => none
  | [], _ + 1, _ => none
  | c :: rest, sLen + 1, p =>
    if c.toInt = ch then some (some p)
    else if c = 0 then some none
    else strchrChk rest sLen (p + 1)

/-- `bionic___strrchr_chk`, in the same way. -/
def strrchrChk : List Int8 → Nat → Nat → Option Nat → Option (Option Nat)
  | _, 0, _, _ => none
  | [], _ + 1, _, _ => none
  | c :: rest, sLen + 1, p, save =>
    if c.toInt = ch then strrchrChk rest sLen (p + 1) (some p)
    else if c = 0 then some save
    else strrchrChk rest sLen (p + 1) save

/-- What `strchr` returns; the terminator belongs to the string. -/
def strchr (memory : List Int8) : Option Nat := (memory.findIdxs (· = Int8.ofInt ch)).head?

def strrchr (memory : List Int8) : Option Nat := (memory.findIdxs (· = Int8.ofInt ch)).getLast?

variable {ch} {s : List Int8} {sLen p : Nat}

theorem checkedSearches_eq (hs : 0 ∉ s) (hlen : s.length < sLen) :
    strchrChk ch (s ++ [0]) sLen p = some ((s ++ [0]).findIdxs (Int8.toInt · = ch) p).head? ∧
      (ch ≠ 0 → ∀ save, strrchrChk ch (s ++ [0]) sLen p save =
        some (((s ++ [0]).findIdxs (Int8.toInt · = ch) p).getLast?.or save)) := by
  induction s generalizing sLen p with
  | nil =>
    obtain ⟨n, rfl⟩ := Nat.exists_eq_add_one_of_ne_zero (Nat.ne_zero_of_lt hlen)
    by_cases h : 0 = ch <;> simp [strchrChk, strrchrChk, h]
  | cons c s ih =>
    obtain ⟨n, rfl⟩ := Nat.exists_eq_add_one_of_ne_zero (Nat.ne_zero_of_lt hlen)
    rw [mem_cons, not_or] at hs
    have hrest {p} := @ih n p hs.2 (Nat.lt_of_succ_lt_succ hlen)
    by_cases h : c.toInt = ch
    · simp +contextual [strchrChk, strrchrChk, h, hrest.2, getLast?_cons]
    · simp +contextual [strchrChk, strrchrChk, h, Ne.symm hs.1, hrest.1, hrest.2]

/-- Looking for the terminator, the loop steps over it. -/
theorem strrchrChk_zero (hs : 0 ∉ s) {save : Option Nat} :
    strrchrChk 0 (s ++ [0]) sLen p save = none := by
  induction s generalizing sLen p save with
  | nil => rcases sLen with _ | _ | sLen <;> simp [strrchrChk]
  | cons c s ih =>
    rw [mem_cons, not_or] at hs
    cases sLen <;> simp [strrchrChk, Ne.symm hs.1, ih hs.2]

/-- **A checked search is right where the character needs no conversion or is not there**, and the
search from the end does not survive a search for the terminator. -/
theorem checkedSearches_iff (ch : Int) (s : CString) (extra : Nat) :
    (strchrChk ch s.memory (s.chars.length + 1 + extra) 0 = some (strchr ch s.memory) ∧
        strrchrChk ch s.memory (s.chars.length + 1 + extra) 0 none = some (strrchr ch s.memory)) ↔
      ch ≠ 0 ∧ (-128 ≤ ch ∧ ch ≤ 127 ∨ Int8.ofInt ch ∉ s.memory) := by
  have hlen : s.chars.length < s.chars.length + 1 + extra := by omega
  by_cases hch : ch = 0
  · subst hch
    simp [CString.memory, strrchrChk_zero s.nonzero]
  obtain ⟨hfirst, hlast⟩ := @checkedSearches_eq ch s.chars _ 0 s.nonzero hlen
  rw [strchr, strrchr, CString.memory, hfirst, hlast hch none]
  by_cases hrange : -128 ≤ ch ∧ ch ≤ 127
  · have hsame : (fun c : Int8 => decide (c.toInt = ch)) = fun c => decide (c = Int8.ofInt ch) := by
      simp only [← Int8.toInt_inj, Int8.toInt_ofInt_of_le hrange.1 (Int.lt_add_one_of_le hrange.2)]
    simp [hsame, hch, hrange]
  · have hnone : (s.chars ++ [0]).findIdxs (Int8.toInt · = ch) = [] := by
      refine findIdxs_eq_nil_iff.mpr fun c _ => decide_eq_false fun h => hrange ?_
      rw [← h]
      exact ⟨Int8.le_toInt c, Int.lt_add_one_iff.mp (Int8.toInt_lt c)⟩
    have hfree : (s.chars ++ [0]).findIdxs (· = Int8.ofInt ch) = [] ↔
        Int8.ofInt ch ∉ s.chars ++ [0] := by
      simp only [findIdxs_eq_nil_iff, decide_eq_false_iff_not]
      exact ⟨fun h hmem => h _ hmem rfl, fun h c hc hit => h (hit ▸ hc)⟩
    rw [hnone, ← hfree]
    simp [hch, hrange, @eq_comm _ none, -findIdxs_append]

end Searches

/-- The character 195, stored as −61, is not found in the string it stands in, and the search for
the terminator from the end reads behind it. -/
theorem strchrChk_195 :
    strchrChk 195 [-61, 0] 2 0 = some none ∧ strchr 195 [-61, 0] = some 0 ∧
      strrchrChk 0 [65, 0] 3 0 none = none := by
  decide

/-! ## Signal masks -/

section SignalMasks

def SIGRTMIN : Nat := 34

def SIGRTMAX : Nat := 64

variable (m64 : Bool) (set : Nat)

/-- `bionic_sigaddset`; a number the set has no bit for leaves it as it is. -/
def bionicSigaddset (sig : Nat) : Nat :=
  if sig < 1 ∨ longBit m64 ≤ sig - 1 then set else set ||| 1 <<< (sig - 1)

def bionicSigismember (sig : Nat) : Int :=
  if sig < 1 ∨ longBit m64 ≤ sig - 1 then -1 else ((set >>> (sig - 1) &&& 1 : Nat) : Int)

/-- The signals `bionic_sigaction` puts in the mask it installs; any answer but zero counts. -/
def installedMask : List Nat :=
  (List.range' 35 (SIGRTMAX - 35)).filter fun signo => bionicSigismember m64 set signo ≠ 0

/-- The set it returns for an installed mask. -/
def queriedMask (gmask : List Nat) : Nat :=
  ((List.range' (SIGRTMIN + 3) (SIGRTMAX - (SIGRTMIN + 3))).filter (· ∈ gmask)).foldl
    (bionicSigaddset m64) 0

/-- The signals of a bionic set. -/
def Blocks (sig : Nat) : Prop := 1 ≤ sig ∧ sig ≤ longBit m64 ∧ set.testBit (sig - 1)

/-- The signals the host should block: all but those reserved. -/
def Passed (sig : Nat) : Prop := Blocks m64 set sig ∧ ¬ (32 ≤ sig ∧ sig ≤ 34)

variable {m64 set} {sig : Nat}

theorem bionicSigismember_ne_zero (h : 1 ≤ sig) :
    bionicSigismember m64 set sig ≠ 0 ↔ longBit m64 < sig ∨ Blocks m64 set sig := by
  unfold bionicSigismember Blocks
  by_cases hlong : longBit m64 < sig
  · simp [hlong, Nat.le_sub_one_of_lt hlong]
  · rw [if_neg (by omega), Nat.testBit_eq_decide_div_mod_eq, Nat.shiftRight_eq_div_pow,
      Nat.and_one_is_mod, Nat.cast_ne_zero, Nat.mod_two_ne_zero]
    simp [h, Nat.le_of_not_lt hlong]

theorem blocks_bionicSigaddset {signo : Nat} (h : 1 ≤ signo) :
    Blocks m64 (bionicSigaddset m64 set signo) sig ↔
      Blocks m64 set sig ∨ sig = signo ∧ sig ≤ longBit m64 := by
  unfold bionicSigaddset Blocks
  split
  · refine ⟨.inl, ?_⟩
    rintro (hset | ⟨rfl, hle⟩)
    · exact hset
    · omega
  · simp only [Nat.testBit_or, Nat.one_shiftLeft, Nat.testBit_two_pow, Bool.or_eq_true,
      decide_eq_true_eq]
    constructor
    · rintro ⟨hpos, hle, hset | hnew⟩
      · exact .inl ⟨hpos, hle, hset⟩
      · exact .inr ⟨by omega, hle⟩
    · rintro (⟨hpos, hle, hset⟩ | ⟨rfl, hle⟩)
      · exact ⟨hpos, hle, .inl hset⟩
      · exact ⟨h, hle, .inr rfl⟩

theorem blocks_foldl {sigs : List Nat} (h : ∀ signo ∈ sigs, 1 ≤ signo) :
    Blocks m64 (sigs.foldl (bionicSigaddset m64) set) sig ↔
      Blocks m64 set sig ∨ sig ∈ sigs ∧ sig ≤ longBit m64 := by
  induction sigs generalizing set with
  | nil => simp
  | cons signo sigs ih =>
    rw [foldl_cons, ih (forall_mem_cons.mp h).2, blocks_bionicSigaddset (forall_mem_cons.mp h).1,
      mem_cons, or_and_right, or_assoc]

theorem mem_installedMask :
    sig ∈ installedMask m64 set ↔
      (35 ≤ sig ∧ sig < 64) ∧ (longBit m64 < sig ∨ Blocks m64 set sig) := by
  rw [installedMask, mem_filter, mem_range'_1, decide_eq_true_iff]
  exact and_congr_right fun h => bionicSigismember_ne_zero (by omega)

theorem blocks_queriedMask {gmask : List Nat} :
    Blocks m64 (queriedMask m64 gmask) sig ↔
      ((37 ≤ sig ∧ sig < 64) ∧ sig ∈ gmask) ∧ sig ≤ longBit m64 := by
  rw [queriedMask, blocks_foldl fun signo h => by simp at h; omega, mem_filter,
    mem_range'_1]
  simp [Blocks, SIGRTMIN, SIGRTMAX]

variable (m64 set) in
/-- **A mask survives the translation exactly where it has only reserved signals and those the two
loops share, on a 64-bit host.** -/
theorem maskTranslated_iff :
    ((∀ sig, sig ∈ installedMask m64 set ↔ Passed m64 set sig) ∧
        ∀ sig, Blocks m64 (queriedMask m64 (installedMask m64 set)) sig ↔ Passed m64 set sig) ↔
      m64 ∧ ∀ sig, Blocks m64 set sig → 32 ≤ sig ∧ sig ≤ 34 ∨ 37 ≤ sig ∧ sig < 64 := by
  constructor
  · rintro ⟨hinstalled, hqueried⟩
    constructor
    · -- without the bits for it, `bionic_sigismember` takes signal 40 for a member
      cases m64 with
      | true => rfl
      | false =>
        have h40 := (hinstalled 40).mp (mem_installedMask.mpr ⟨by decide, .inl (by decide)⟩)
        exact absurd h40.1.2.1 (by decide)
    · intro sig hblocks
      by_contra hno
      have hpassed : Passed m64 set sig := ⟨hblocks, fun h => hno (.inl h)⟩
      exact hno (.inr (blocks_queriedMask.mp ((hqueried sig).mpr hpassed)).1.1)
  · rintro ⟨rfl, hall⟩
    have hinstalled (sig) : sig ∈ installedMask true set ↔ Passed true set sig := by
      rw [mem_installedMask, Passed]
      constructor
      · rintro ⟨hrange, hlong | hblocks⟩
        · exact absurd hrange.2 (by simp [longBit] at hlong; omega)
        · exact ⟨hblocks, by omega⟩
      · rintro ⟨hblocks, hfree⟩
        have := hall sig hblocks
        exact ⟨by omega, .inr hblocks⟩
    refine ⟨hinstalled, fun sig => ?_⟩
    rw [blocks_queriedMask, hinstalled]
    constructor
    · exact fun h => h.1.2
    · intro h
      have := hall sig h.1
      exact ⟨⟨by have := h.2; omega, h⟩, h.1.2.1⟩

end SignalMasks

/-- A mask of `SIGINT` and signal 35: the host blocks the second alone, and a query has neither. -/
theorem maskTranslated_int :
    installedMask true (1 <<< 1 ||| 1 <<< 34) = [35] ∧ queriedMask true [35] = 0 := by
  decide +kernel

/-! ## Deadlines of timed waits -/

section Deadlines

/-- A normalised `struct timespec`. -/
structure Timespec where
  sec : Int
  nsec : Int
  normal : 0 ≤ nsec ∧ nsec < 1000000000

def nanoseconds (sec nsec : Int) : Int := sec * 1000000000 + nsec

variable (m64 : Bool)

/-- The values of `time_t`. -/
def TimeT (sec : Int) : Prop := -2 ^ (longBit m64 - 1) ≤ sec ∧ sec < 2 ^ (longBit m64 - 1)
  deriving Decidable

/-- The sum both waits pass on; there is none if the seconds overflow. -/
def deadline (clock arg : Timespec) : Option (Int × Int) :=
  let sec := clock.sec + arg.sec
  let nsec := clock.nsec + arg.nsec
  if ¬ TimeT m64 sec then none
  else if nsec < 1000000000 then some (sec, nsec)
  else if ¬ TimeT m64 (sec + 1) then none
  else some (sec + 1, nsec - 1000000000)

def condTimedwaitRelativeNp (realtime reltime : Timespec) : Option (Int × Int) :=
  deadline m64 realtime reltime

def condTimedwaitMonotonicNp (monotonic abstime : Timespec) : Option (Int × Int) :=
  deadline m64 monotonic abstime

/-- A wait has a normalised deadline, at the time `ns`. -/
def PassesOn (wait : Option (Int × Int)) (ns : Int) : Prop :=
  ∃ sec nsec, wait = some (sec, nsec) ∧ (0 ≤ nsec ∧ nsec < 1000000000) ∧ nanoseconds sec nsec = ns

/-- The seconds of the sum fit, before and after the carry. -/
def Fits (clock arg : Timespec) : Prop :=
  TimeT m64 (clock.sec + arg.sec) ∧
    (1000000000 ≤ clock.nsec + arg.nsec → TimeT m64 (clock.sec + arg.sec + 1))

variable {m64} in
theorem deadline_passesOn {clock arg : Timespec} {ns : Int} :
    PassesOn (deadline m64 clock arg) ns ↔
      Fits m64 clock arg ∧
        nanoseconds clock.sec clock.nsec + nanoseconds arg.sec arg.nsec = ns := by
  have := clock.normal
  have := arg.normal
  unfold PassesOn deadline Fits nanoseconds
  by_cases hsec : TimeT m64 (clock.sec + arg.sec)
  · by_cases hcarry : clock.nsec + arg.nsec < 1000000000
    · simp [hsec, hcarry]
      omega
    · by_cases hnext : TimeT m64 (clock.sec + arg.sec + 1)
      · simp [hsec, hcarry, hnext]
        omega
      · simp [hsec, hcarry, hnext]
  · simp [hsec]

/-- **Both deadlines are right exactly where no seconds overflow and the realtime clock happens to
show twice the monotonic one.** -/
theorem deadlines_iff (realtime monotonic arg : Timespec) :
    let real := nanoseconds realtime.sec realtime.nsec
    let mono := nanoseconds monotonic.sec monotonic.nsec
    let ns := nanoseconds arg.sec arg.nsec
    (PassesOn (condTimedwaitRelativeNp m64 realtime arg) (real + ns) ∧
        PassesOn (condTimedwaitMonotonicNp m64 monotonic arg) (real + (ns - mono))) ↔
      Fits m64 realtime arg ∧ Fits m64 monotonic arg ∧ real = 2 * mono := by
  intro real mono ns
  rw [condTimedwaitRelativeNp, condTimedwaitMonotonicNp, deadline_passesOn, deadline_passesOn]
  constructor
  · rintro ⟨⟨hrel, -⟩, hmono, heq⟩
    exact ⟨hrel, hmono, by omega⟩
  · rintro ⟨hrel, hmono, heq⟩
    exact ⟨⟨hrel, rfl⟩, hmono, by omega⟩

end Deadlines

/-- A whole number of seconds. -/
def seconds (sec : Int) : Timespec := ⟨sec, 0, of_decide_eq_true rfl⟩

/-- At second 5000 of the monotonic clock, a wait until second 5001 has a deadline of the year
1970. -/
theorem condTimedwaitMonotonicNp_late :
    condTimedwaitMonotonicNp true (seconds 5000) (seconds 5001) = some (10001, 0) ∧
      nanoseconds 10001 0 ≠
        nanoseconds 1700000000 0 + (nanoseconds 5001 0 - nanoseconds 5000 0) := by
  decide +kernel

/-! ## Arguments of `execv` -/

section Execv

/-- An argument vector: the strings in front of the null pointer, and what lies behind it. -/
structure ArgVector where
  args : List String
  behind : Nat → Option String

def ArgVector.entry (argv : ArgVector) (i : Nat) : Option String :=
  if i ≤ argv.args.length then argv.args[i]? else argv.behind i

/-- What a call does: the places of `argv` it reads, the entries of `args` it stores, and the vector
the host is given if the call gets there. -/
structure ExecvCall where
  reads : List Nat
  args : List (Option String)
  passed : Option (List (Option String))

variable (argv : ArgVector)

/-- The loop of `bionic_execv`, with `room` rounds left. -/
def copyArgs : Nat → List Nat → List (Option String) → List Nat × List (Option String)
  | 0, reads, args => (reads, args)
  | room + 1, reads, args =>
    let i := args.length - 2
    match argv.entry i with
    | none => (reads ++ [i], args)
    | some arg => copyArgs room (reads ++ [i]) (args ++ [some arg])

variable (m64 ndebug : Bool) (pathname : String)

/-- `bionic_execv`. The loop is bounded by the size of the 255 pointers in bytes, and the assertion,
which `NDEBUG` takes out, looks up the index of `args` in `argv`. -/
def bionicExecv : ExecvCall :=
  let (reads, args) := copyArgs argv (255 * (longBit m64 / 8) - 1 - 2) []
    [some "/proc/self/exe", some pathname]
  let done := args ++ [none]
  if ndebug then ⟨reads, done, some done⟩
  else if (argv.entry args.length).isNone then ⟨reads ++ [args.length], done, some done⟩
  else ⟨reads ++ [args.length], args, none⟩

/-- The call reads no more than `argv`, stores no more than 255 entries, and passes on the whole
vector if any. -/
def ExecvCall.Exact (call : ExecvCall) : Prop :=
  (∀ i ∈ call.reads, i ≤ argv.args.length) ∧ call.args.length ≤ 255 ∧ ∀ v ∈ call.passed,
    v = some "/proc/self/exe" :: some pathname :: argv.args.map some ++ [none]

theorem copyArgs_eq {k : Nat} (hk : k ≤ argv.args.length) (room : Nat)
    (front : List (Option String)) (hfront : front.length = 2) :
    copyArgs argv room (range k) (front ++ (argv.args.take k).map some) =
      (range (min (argv.args.length + 1) (k + room)),
        front ++ (argv.args.take (k + room)).map some) := by
  induction room generalizing k with
  | zero => simp [copyArgs, Nat.le_succ_of_le hk]
  | succ room ih =>
    have hlen : (front ++ (argv.args.take k).map some).length - 2 = k := by simp [hfront, hk]
    simp only [copyArgs, hlen, ArgVector.entry, if_pos hk, ← range_succ]
    rcases hk.lt_or_eq with hlt | rfl
    · have hrest := ih hlt
      rw [← take_append_getElem hlt, map_append, ← append_assoc, Nat.succ_add_eq_add_succ] at hrest
      rw [getElem?_eq_getElem hlt]
      exact hrest
    · rw [getElem?_eq_none le_rfl, take_of_length_le le_rfl, take_of_length_le (by omega),
        min_eq_left (by omega)]

/-- **The vector is exact if the assertion is compiled out and there are at most 252 arguments.**
The assertion reads two places behind the null pointer. -/
theorem bionicExecv_exact_iff :
    (bionicExecv argv m64 ndebug pathname).Exact argv pathname ↔
      ndebug ∧ argv.args.length ≤ 252 := by
  have hcopy := copyArgs_eq argv (Nat.zero_le _) (255 * (longBit m64 / 8) - 1 - 2)
    [some "/proc/self/exe", some pathname] rfl
  have hroom : 253 < 255 * (longBit m64 / 8) - 1 - 2 := by cases m64 <;> decide
  rw [range_zero, take_zero, map_nil, append_nil, Nat.zero_add] at hcopy
  rw [bionicExecv, hcopy]
  generalize 255 * (longBit m64 / 8) - 1 - 2 = room at hroom
  cases ndebug with
  | true =>
    by_cases hn : argv.args.length ≤ 252
    · rw [take_of_length_le (by omega), min_eq_left (by omega)]
      simp [ExecvCall.Exact, hn, Nat.lt_succ_iff]
    · refine iff_of_false (fun h => ?_) fun h => hn h.2
      have hle := h.2.1
      simp at hle
      omega
  | false =>
    simp only [Bool.false_eq_true, if_false, false_and, iff_false]
    intro h
    split at h
    all_goals
      have hread := h.1 (min room argv.args.length + 2)
      have hle := h.2.1
      simp at hread hle
      omega

end Execv

/-- With one argument the assertion reads the fourth place of a vector of two; without it, 253
arguments are stored behind the array. -/
theorem bionicExecv_one : (bionicExecv ⟨["sh"], fun _ => none⟩ true false "sh").reads = [0, 1, 3] ∧
    (bionicExecv ⟨replicate 253 "a", fun _ => none⟩ true true "sh").args.length = 256 := by
  decide +kernel

end Lunaria.Native
