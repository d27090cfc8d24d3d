/-
# Runs of mapping calls

A run is any sequence of steps of the address space. Next to the address space it
records the mappings a guest believes in: the address range of
every successful `mmap`, less what was unmapped or replaced by a later fixed
mapping since. The free space of the arenas, seen through the guest's addresses,
is what a later call may still hand out.
-/

import Lunaria.Space.Resolve
import Lunaria.Lib.Run

namespace Lunaria

open Lib

/-- The guest's address of an arena offset. -/
def guestAddr (L : Layout) (off : Nat) : Nat := if L.isArm64 then a64GuestVa off else off

def guestSpan (L : Layout) (i : Interval) : Interval := ⟨guestAddr L i.lo, guestAddr L i.hi⟩

/-- The guest ranges a later call may still hand out. -/
def guestFreeSpans (L : Layout) (a : Arenas) : List Interval := (a.freeSpans L).map (guestSpan L)

/-- The guest address may still be handed out. -/
def GuestFree (L : Layout) (a : Arenas) (x : Nat) : Prop :=
  ∃ s ∈ guestFreeSpans L a, x ∈ s.addresses

variable {L : Layout} {a : Arenas} {x : Nat}

theorem ArenaSpan.retAddr_eq {raw : Bool} {s : AddressSpace} {c : MmapCall}
    {addr len : Nat} (hspan : ArenaSpan raw L s c addr len a) :
    retAddr L addr = some (guestAddr L addr) := by
  have hl := layoutConsts
  have hbase := hspan.base_le
  simp only [retAddr, guestAddr]
  split
  · rw [if_pos (by omega)]
  · rw [if_neg hspan.ne_failed]

theorem mem_guestSpan {i : Interval} :
    x ∈ (guestSpan L i).addresses ↔ ∃ off ∈ i.addresses, x = guestAddr L off := by
  simp only [guestSpan, Interval.mem_addresses, guestAddr, a64GuestVa]
  split
  · constructor
    · intro h
      exact ⟨x - a64GuestBase, by omega, by omega⟩
    · omega
  · simp

theorem guestFree_iff : GuestFree L a x ↔ ∃ off, x = guestAddr L off ∧ a.Free L off := by
  simp only [GuestFree, guestFreeSpans, List.mem_map, exists_exists_and_eq_and, mem_guestSpan]
  constructor
  · rintro ⟨s, hs, off, hoff, rfl⟩
    exact ⟨off, rfl, s, hs, hoff⟩
  · rintro ⟨off, rfl, s, hs, hoff⟩
    exact ⟨s, hs, off, hoff, rfl⟩

theorem GuestFree.mono {a' : Arenas} (h : ∀ x, a'.Free L x → a.Free L x) (hx : GuestFree L a' x) :
    GuestFree L a x := by
  rw [guestFree_iff] at hx ⊢
  obtain ⟨off, rfl, hoff⟩ := hx
  exact ⟨off, rfl, h off hoff⟩

/-- The range a call asks for: the requested length, rounded up to pages. -/
def MmapCall.rangeAt (c : MmapCall) (addr : Nat) : Interval :=
  ⟨addr, addr + roundUp c.len 4096⟩

/-- A mapping the guest believes in: its range, whether it was fixed, and the libraries recorded
before it. -/
structure Mapping where
  range : Interval
  fixed : Bool
  prior : List Interval
  deriving DecidableEq, Repr

/-- The address space together with the guest's view of its mappings. -/
structure MapRun where
  space : AddressSpace
  live : List Mapping

namespace MapRun

def initial (L : Layout) : MapRun := ⟨AddressSpace.initial L, []⟩

def cutLive (live : List Mapping) (range : Interval) : List Mapping :=
  live.flatMap fun m => (m.range.cut range).map fun piece => { m with range := piece }

/-- The mappings after a call. A successful fixed call replaces what it asked for. -/
def liveAfter (L : Layout) (g : MapRun) (c : MmapCall) : Option Nat → List Mapping
  | none => g.live
  | some addr =>
    ⟨c.rangeAt addr, fixedCall L g.space c, g.space.loaded.map fun r => guestSpan L r.span⟩ ::
      if fixedCall L g.space c then cutLive g.live (c.rangeAt c.addr) else g.live

def step (L : Layout) (g : MapRun) (op : SpaceOp) : MapRun where
  space := g.space.step L op
  live :=
    match op with
    | .mmap raw env c => g.liveAfter L c (mmapHandler raw L g.space env c).1
    | .munmap _ addr len => cutLive g.live ⟨addr, addr + roundUp len 4096⟩
    | .mprotect _ _ _ => g.live
    | .load _ _ => g.live
    | .store _ _ => g.live

end MapRun

end Lunaria
