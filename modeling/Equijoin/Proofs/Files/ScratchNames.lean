import Mathlib.Data.List.Basic
import Equijoin.Run

/-! # The files that a run makes for itself

* `shardPlace`, `partPlace`: where the files of a scratch directory stand.
* `shardPlace_inj`, `partPlace_inj`, `shardPlace_ne_partPlace`: no two of them are the same file.
-/

set_option autoImplicit false

namespace Equijoin

/-! ## Names -/

theorem fiveDigits_inj {m n : Nat} (h : fiveDigits m = fiveDigits n) : m = n := by
  have hvalue : ∀ k, Nat.ofDigitChars 10 (fiveDigits k).toList 0 = k := by
    intro k
    simp only [fiveDigits, String.toList_ofList, Nat.ofDigitChars_append,
      Nat.ofDigitChars_replicate_zero, Nat.mul_zero, Nat.ofDigitChars_ten_toDigits]
  rw [← hvalue m, h, hvalue n]

def shardName (dataset shard : Nat) : String :=
  s!"input{dataset}-shard{fiveDigits shard}.csv"

def partName (shard : Nat) : String :=
  s!"part{fiveDigits shard}.csv"

theorem toList_shardName (dataset shard : Nat) :
    (shardName dataset shard).toList =
      "input".toList ++ (Nat.toDigits 10 dataset ++ '-' :: ("shard".toList ++
        ((fiveDigits shard).toList ++ ".csv".toList))) := by
  have hname : shardName dataset shard =
      "input" ++ toString dataset ++ "-shard" ++ fiveDigits shard ++ ".csv" := rfl
  have hdash : "-shard".toList = '-' :: "shard".toList := by decide
  simp only [hname, String.toList_append, Nat.toString_eq_ofList_toDigits, String.toList_ofList,
    hdash, List.append_assoc, List.cons_append]

theorem toList_partName (shard : Nat) :
    (partName shard).toList = "part".toList ++ ((fiveDigits shard).toList ++ ".csv".toList) := by
  have hname : partName shard = "part" ++ fiveDigits shard ++ ".csv" := rfl
  simp only [hname, String.toList_append, List.append_assoc]

/-- A list is cut in one way at the first place of an element. -/
theorem append_cons_inj {α : Type} {c : α} {xs ys as bs : List α} (hxs : c ∉ xs) (hys : c ∉ ys)
    (h : xs ++ c :: as = ys ++ c :: bs) : xs = ys ∧ as = bs := by
  induction xs generalizing ys with
  | nil =>
    cases ys with
    | nil => exact ⟨rfl, (List.cons.inj h).2⟩
    | cons y ys => exact absurd (List.cons.inj h).1 fun e => hys (by simp [e])
  | cons x xs ih =>
    cases ys with
    | nil => exact absurd (List.cons.inj h).1 fun e => hxs (by simp [e])
    | cons y ys =>
      obtain ⟨rfl, hrest⟩ := List.cons.inj h
      obtain ⟨rfl, rfl⟩ := ih (fun hc => hxs (by simp [hc])) (fun hc => hys (by simp [hc])) hrest
      exact ⟨rfl, rfl⟩

theorem notMem_toDigits {c : Char} (h : c.isDigit = false) (n : Nat) :
    c ∉ Nat.toDigits 10 n := by
  intro hmem
  have hdigit := Nat.isDigit_of_mem_toDigits (by decide) (by decide) hmem
  cases h.symm.trans hdigit

theorem shardName_inj {i j shard shard' : Nat} (h : shardName i shard = shardName j shard') :
    i = j ∧ shard = shard' := by
  have hlist := congrArg String.toList h
  rw [toList_shardName, toList_shardName] at hlist
  obtain ⟨hdigits, hrest⟩ := append_cons_inj (notMem_toDigits (by decide) i)
    (notMem_toDigits (by decide) j) (List.append_cancel_left hlist)
  have hfive := List.append_cancel_right (List.append_cancel_left hrest)
  refine ⟨?_, fiveDigits_inj (String.toList_injective hfive)⟩
  rw [← Nat.ofDigitChars_ten_toDigits (n := i), hdigits, Nat.ofDigitChars_ten_toDigits]

theorem partName_inj {shard shard' : Nat} (h : partName shard = partName shard') :
    shard = shard' := by
  have hlist := congrArg String.toList h
  rw [toList_partName, toList_partName] at hlist
  exact fiveDigits_inj
    (String.toList_injective (List.append_cancel_right (List.append_cancel_left hlist)))

theorem shardName_ne_partName (i shard shard' : Nat) : shardName i shard ≠ partName shard' := by
  intro h
  have hlist := congrArg String.toList h
  rw [toList_shardName, toList_partName] at hlist
  exact absurd (List.cons.inj hlist).1 (by decide)

/-! ## Places -/

/-- The place of the file of a shard of a dataset. -/
def shardPlace (dir : Scratch) (dataset shard : Nat) : Location :=
  dir.location ++ [.given (shardName dataset shard)]

/-- The place of the part file of a shard. -/
def partPlace (dir : Scratch) (shard : Nat) : Location :=
  dir.location ++ [.given (partName shard)]

variable {dir : Scratch} {i j shard shard' : Nat}

theorem shardPlace_inj (h : shardPlace dir i shard = shardPlace dir j shard') :
    i = j ∧ shard = shard' :=
  shardName_inj (by simpa [shardPlace] using h)

theorem partPlace_inj (h : partPlace dir shard = partPlace dir shard') : shard = shard' :=
  partName_inj (by simpa [partPlace] using h)

theorem shardPlace_ne_partPlace : shardPlace dir i shard ≠ partPlace dir shard' :=
  fun h => shardName_ne_partName i shard shard' (by simpa [shardPlace, partPlace] using h)

end Equijoin
