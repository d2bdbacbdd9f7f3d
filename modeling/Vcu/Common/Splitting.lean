import Vcu.Common
import Vcu.Lib.Runs

namespace Vcu

open Runs StdString

section Loop

variable {s delims : List Char}

-- A search from a position looks at the rest of the string.
theorem findFirstOf_append (a b : List Char) :
    findFirstOf (a ++ b) delims (some a.length) =
      (b.findIdx? fun c => delims.contains c).map (a.length + ·) := by
  rw [findFirstOf, Option.bind_some, List.drop_left]

theorem findFirstNotOf_append (a b : List Char) :
    findFirstNotOf (a ++ b) delims (some a.length) =
      (b.findIdx? fun c => !delims.contains c).map (a.length + ·) := by
  rw [findFirstNotOf, Option.bind_some, List.drop_left]

theorem findIdx?_append_cons {q : Char → Bool} {a : List Char} {c : Char} (ha : ∀ x ∈ a, q x = false)
    (hc : q c = true) (b : List Char) : (a ++ c :: b).findIdx? q = some a.length := by
  rw [List.findIdx?_append, List.findIdx?_eq_none_iff.mpr ha, Option.none_or, List.findIdx?_cons,
    if_pos hc, Option.map_some, Nat.zero_add]

theorem splitLoop_none (fuel : Nat) (endPos : Option Nat) :
    splitLoop s delims fuel none endPos = [] := by
  cases fuel with
  | zero => rfl
  | succ fuel => rfl

-- A search for a token stops behind the delimiters, and the search for its end at the next one.
theorem findFirstNotOf_run {a d r : List Char} (hd : ∀ x ∈ d, delims.contains x = true) (hne : r ≠ [])
    (hr : ∀ x ∈ r, delims.contains x = false) (b : List Char) :
    findFirstNotOf (a ++ (d ++ (r ++ b))) delims (some a.length) = some (a ++ d).length := by
  obtain ⟨c, e, rfl⟩ := List.exists_cons_of_ne_nil hne
  have hd : ∀ x ∈ d, (!delims.contains x) = false := fun x hx => (Bool.not_eq_false' _).mpr (hd x hx)
  have hc : (!delims.contains c) = true := (Bool.not_eq_true' _).mpr (hr c List.mem_cons_self)
  rw [findFirstNotOf_append, List.cons_append, findIdx?_append_cons hd hc, Option.map_some,
    List.length_append]

theorem findFirstOf_end {r : List Char} (hr : ∀ x ∈ r, delims.contains x = false) (a : List Char) :
    findFirstOf (a ++ r) delims (some a.length) = none := by
  rw [findFirstOf_append, List.findIdx?_eq_none_iff.mpr hr, Option.map_none]

theorem findFirstOf_run {r : List Char} {c : Char} (hr : ∀ x ∈ r, delims.contains x = false)
    (hc : delims.contains c = true) (a t : List Char) :
    findFirstOf (a ++ (r ++ c :: t)) delims (some a.length) = some (a ++ r).length := by
  rw [findFirstOf_append, findIdx?_append_cons hr hc, Option.map_some, List.length_append]

theorem findFirstNotOf_all {b : List Char} (hb : ∀ x ∈ b, delims.contains x = true) (a : List Char) :
    findFirstNotOf (a ++ b) delims (some a.length) = none := by
  have hb : ∀ x ∈ b, (!delims.contains x) = false := fun x hx => (Bool.not_eq_false' _).mpr (hb x hx)
  rw [findFirstNotOf_append, List.findIdx?_eq_none_iff.mpr hb, Option.map_none]

theorem runs_of_all {b : List Char} (hb : ∀ x ∈ b, delims.contains x = true) :
    runs (fun c => delims.contains c) b = [] := by
  have hruns := runs_all (p := fun c => delims.contains c) hb []
  rwa [List.append_nil, runs_nil] at hruns

-- The rounds of the loop from a position find the runs of what is left.
theorem splitLoop_append (fuel : Nat) (a b : List Char) (hfuel : b.length < fuel) :
    splitLoop (a ++ b) delims fuel (findFirstNotOf (a ++ b) delims (some a.length))
        (findFirstOf (a ++ b) delims (findFirstNotOf (a ++ b) delims (some a.length))) =
      runs (fun c => delims.contains c) b := by
  induction fuel generalizing a b with
  | zero => omega
  | succ fuel ih =>
      rcases first_run (fun c => delims.contains c) b with hb | ⟨d, r, b, rfl, hd, hne, hr, hend⟩
      · rw [findFirstNotOf_all hb, runs_of_all hb, splitLoop_none]
      rw [findFirstNotOf_run hd hne hr, runs_all hd, ← List.append_assoc]
      -- The token ends with the string or at the next delimiter.
      rcases hend with rfl | ⟨c, t, rfl, hc⟩
      · rw [List.append_nil, findFirstOf_end hr, runs_none hr hne]
        simp only [splitLoop, List.drop_left, findFirstNotOf, Option.bind_none, splitLoop_none]
      · have hlt := List.length_pos_iff.mpr hne
        simp only [List.length_append, List.length_cons] at hfuel
        rw [findFirstOf_run hr hc, runs_append_cons hc, runs_none hr hne, ← runs_cons hc t, splitLoop]
        have htoken : substr (a ++ d ++ (r ++ c :: t)) (a ++ d).length
            ((a ++ d ++ r).length - (a ++ d).length) = r := by
          have hlength : (a ++ d ++ r).length = (a ++ d).length + r.length := List.length_append
          rw [substr, List.drop_left, hlength, Nat.add_sub_cancel_left, List.take_left]
        simp only [htoken, List.singleton_append]
        rw [← List.append_assoc]
        exact congrArg (r :: ·) (ih (a ++ d ++ r) (c :: t) (by
          rw [List.length_cons]
          omega))

theorem splitString_eq_runs (s delims : List Char) :
    splitString s delims = runs (fun c => delims.contains c) s :=
  splitLoop_append (s.length + 1) [] s (Nat.lt_succ_self _)

end Loop

end Vcu
