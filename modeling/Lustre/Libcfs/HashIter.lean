/-
Module: Lustre.Libcfs.HashIter
Purpose: The iterators of the hash table, and whether a callback that wants to stop is heard.
Trusted boundary: nobody else changes the table during a pass
-/
import Mathlib.Algebra.Order.Ring.Int
import Mathlib.Data.List.Infix

namespace Libcfs.Hash

open List

variable {α β ι : Type}

/-- A loop whose body also answers whether to leave it. -/
def forEach (body : α → β → β × Bool) : List α → β → β × Bool
  | [], s => (s, false)
  | a :: rest, s => if (body a s).2 then body a s else forEach body rest (body a s).1

/-- A body that goes on when a loop inside it was left. -/
def goOn (body : α → β → β × Bool) (a : α) (s : β) : β × Bool := ((body a s).1, false)

/-- `cfs_hash_t`: the chains of each bucket, and the flags and operations the iterators ask
for. -/
structure CfsHash (ι : Type) where
  buckets : List (List (List ι))
  noLock : Bool
  rehashKey : Bool
  noItemref : Bool
  get : Bool
  put : Bool
  putLocked : Bool

def CfsHash.items (hs : CfsHash ι) : List ι := hs.buckets.flatten.flatten

/-- The calls of the callback so far, each with what it returned. -/
abbrev Calls (ι : Type) := List (ι × Int)

-- What the callback returns may depend on its earlier calls.
variable (hs : CfsHash ι) (func : Calls ι → ι → Int)

def call (hnode : ι) (calls : Calls ι) : Calls ι × Bool :=
  (calls ++ [(hnode, func calls hnode)], func calls hnode != 0)

/-- `cfs_hash_for_each_tight`: `goto out` leaves all loops.  The next item is read before the call, which
may remove its own. -/
def cfsHashForEachTight : Calls ι := (forEach (forEach (forEach (call func))) hs.buckets []).1

def cfsHashForEach : Calls ι := cfsHashForEachTight hs func

def cfsHashForEachSafe : Calls ι := cfsHashForEachTight hs func

/-- `cfs_hash_for_each_relax`: `break` leaves the loop over the chain. -/
def cfsHashForEachRelax : Calls ι :=
  (forEach (goOn (forEach (goOn (forEach (call func))))) hs.buckets []).1

def eopnotsupp : Int := -95

/-- `cfs_hash_for_each_nolock` -/
def cfsHashForEachNolock : Int × Calls ι :=
  if hs.noLock ∨ hs.rehashKey ∨ ¬ hs.noItemref then (eopnotsupp, [])
  else if ¬ hs.get ∨ (¬ hs.put ∧ ¬ hs.putLocked) then (eopnotsupp, [])
  else (0, cfsHashForEachRelax hs func)

/-- All calls returned 0. -/
abbrev Quiet (calls : Calls ι) : Prop := ∀ c ∈ calls, c.2 = 0

/-- Calls that all returned 0 are one for each item, and all before the last did. -/
structure Exact (items : List ι) (calls : Calls ι) : Prop where
  once : Quiet calls → (calls.map Prod.fst).Perm items
  stops : Quiet calls.dropLast

/-- The first chain in which the callback wants to stop has only empty ones behind it. -/
def StopsLast : List (List ι) → Calls ι → Prop
  | [], _ => True
  | chain :: rest, calls =>
    if (forEach (call func) chain calls).2 then rest.flatten = []
    else StopsLast rest (forEach (call func) chain calls).1

theorem forEach_append (body : α → β → β × Bool) (xs ys : List α) (s : β) :
    forEach body (xs ++ ys) s =
      if (forEach body xs s).2 then forEach body xs s else forEach body ys (forEach body xs s).1 := by
  induction xs generalizing s with
  | nil => rfl
  | cons x xs ih =>
    rw [cons_append, forEach, forEach, ih]
    split <;> simp_all

theorem forEach_forEach (body : α → β → β × Bool) (chains : List (List α)) (s : β) :
    forEach (forEach body) chains s = forEach body chains.flatten s := by
  induction chains generalizing s with
  | nil => rfl
  | cons chain rest ih => rw [forEach, flatten_cons, forEach_append, ih]

theorem forEach_goOn (body : α → β → β × Bool) (xs : List α) (s : β) :
    forEach (goOn body) xs s = (xs.foldl (fun s a => (body a s).1) s, false) := by
  induction xs generalizing s with
  | nil => rfl
  | cons x xs ih => exact ih _

/-! ### Calls along the chains -/

variable {calls : Calls ι}

/-- The last call, and no other, returned something else. -/
def Ended (calls : Calls ι) : Prop :=
  ∃ quiet last, calls = quiet ++ [last] ∧ Quiet quiet ∧ last.2 ≠ 0

theorem quiet_nil : Quiet ([] : Calls ι) := nofun

theorem Quiet.exact (quiet : Quiet calls) : Exact (calls.map Prod.fst) calls :=
  ⟨fun _ => .refl _, fun c early => quiet c (mem_of_mem_dropLast early)⟩

theorem Ended.exact {items : List ι} (ended : Ended calls) : Exact items calls := by
  obtain ⟨quiet, last, rfl, zero, stop⟩ := ended
  exact ⟨fun all => absurd (all last (by simp)) stop, by rwa [dropLast_concat]⟩

theorem chain_calls (chain : List ι) (quiet : Quiet calls) :
    if (forEach (call func) chain calls).2 then Ended (forEach (call func) chain calls).1
    else Quiet (forEach (call func) chain calls).1 ∧
      (forEach (call func) chain calls).1.map Prod.fst = calls.map Prod.fst ++ chain := by
  induction chain generalizing calls with
  | nil => exact ⟨quiet, (append_nil _).symm⟩
  | cons hnode rest ih =>
    rw [forEach]
    by_cases rc : func calls hnode = 0
    · have next : Quiet (call func hnode calls).1 := by
        simpa [call, rc, or_imp, forall_and] using quiet
      simpa [call, rc] using ih next
    · have ended : Ended (call func hnode calls).1 := ⟨_, _, rfl, quiet, rc⟩
      simpa [call, rc] using ended

theorem tight_exact : Exact hs.items (cfsHashForEachTight hs func) := by
  rw [cfsHashForEachTight, forEach_forEach, forEach_forEach, ← CfsHash.items]
  have along := chain_calls func hs.items quiet_nil
  split at along
  · exact along.exact
  · have exact := along.1.exact
    rwa [along.2] at exact

variable {func}

/-- The chains one after the other, whether or not the loop over one is left. -/
def chainCalls (func : Calls ι → ι → Int) (chains : List (List ι)) (calls : Calls ι) : Calls ι :=
  chains.foldl (fun calls chain => (forEach (call func) chain calls).1) calls

theorem chain_extends (chain : List ι) (calls : Calls ι) :
    calls <+: (forEach (call func) chain calls).1 := by
  induction chain generalizing calls with
  | nil => exact prefix_rfl
  | cons hnode rest ih =>
    rw [forEach]
    split
    · exact prefix_append ..
    · exact (prefix_append ..).trans (ih _)

theorem chains_extend (chains : List (List ι)) (calls : Calls ι) :
    calls <+: chainCalls func chains calls := by
  induction chains generalizing calls with
  | nil => exact prefix_rfl
  | cons chain rest ih => exact (chain_extends chain calls).trans (ih _)

/-- After a call that wanted to stop, only empty chains keep the pass exact. -/
theorem Ended.exact_iff {items : List ι} (ended : Ended calls) (chains : List (List ι)) :
    Exact items (chainCalls func chains calls) ↔ chains.flatten = [] := by
  induction chains with
  | nil => exact iff_of_true ended.exact rfl
  | cons chain rest ih =>
    cases chain with
    | nil => exact ih
    | cons hnode chain =>
      refine iff_of_false (fun exact => ?_) (by simp)
      obtain ⟨quiet, last, rfl, -, stop⟩ := ended
      have more : (call func hnode (quiet ++ [last])).1 <+:
          chainCalls func ((hnode :: chain) :: rest) (quiet ++ [last]) := by
        refine .trans ?_ (chains_extend rest _)
        dsimp only [forEach]
        split
        · exact prefix_rfl
        · exact chain_extends chain _
      obtain ⟨after, whole⟩ := more
      refine stop (exact.stops last ?_)
      rw [← whole, call, append_assoc, dropLast_append_of_ne_nil (by simp)]
      simp

theorem chains_exact_iff (chains : List (List ι)) (quiet : Quiet calls) :
    Exact (calls.map Prod.fst ++ chains.flatten) (chainCalls func chains calls) ↔
      StopsLast func chains calls := by
  induction chains generalizing calls with
  | nil => exact iff_of_true (by simpa [chainCalls] using quiet.exact) trivial
  | cons chain rest ih =>
    have along := chain_calls func chain quiet
    unfold StopsLast
    split_ifs at along ⊢
    · exact along.exact_iff rest
    · rw [← ih along.1, along.2, flatten_cons, append_assoc]
      rfl

/-- The tight iterators are exact; the relaxed one is, on a table that supports it, exactly when the
callback does not stop before the last chain with items. -/
theorem hash_iteration_exact_iff (hs : CfsHash ι) (func : Calls ι → ι → Int) :
    Exact hs.items (cfsHashForEach hs func) ∧ Exact hs.items (cfsHashForEachSafe hs func) ∧
        ((cfsHashForEachNolock hs func).1 = 0 → Exact hs.items (cfsHashForEachNolock hs func).2) ↔
      (¬ hs.noLock ∧ ¬ hs.rehashKey ∧ hs.noItemref ∧ hs.get ∧ (hs.put ∨ hs.putLocked) →
        StopsLast func hs.buckets.flatten []) := by
  have relaxed : Exact hs.items (cfsHashForEachRelax hs func) ↔ StopsLast func hs.buckets.flatten [] := by
    have chains : cfsHashForEachRelax hs func = chainCalls func hs.buckets.flatten [] := by
      simp only [cfsHashForEachRelax, forEach_goOn, chainCalls, foldl_flatten]
    rw [chains]
    exact chains_exact_iff hs.buckets.flatten quiet_nil
  have tight := tight_exact hs func
  have refused : eopnotsupp ≠ 0 := by decide
  rw [cfsHashForEach, cfsHashForEachSafe, cfsHashForEachNolock]
  grind

/-- The callback wants to stop at the first item, in the first of two chains. -/
theorem relaxed_iteration_goes_on :
    (cfsHashForEachNolock ⟨[[[1], [2]]], false, false, true, true, true, true⟩
      fun _ hnode => hnode).2 = [(1, 1), (2, 2)] := by
  decide

end Libcfs.Hash
