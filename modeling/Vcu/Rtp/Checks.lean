import Vcu.Rtp.Stream

namespace Vcu

open NalFragment

-- A failed FSERVO_CHECK, which ends the process.
def Aborts {α : Type} (result : Except Fault α) : Prop := ∃ exp, result = .error (.checkFailed exp)

-- The packets of an access unit carry the marker bit on the last one only.
def markedLast : List Packet → Bool
  | [] => true
  | [p] => marked p.rtp
  | p :: q :: rest => !marked p.rtp && markedLast (q :: rest)

theorem markedLast_split {before after : List Packet} {p : Packet}
    (h : markedLast (before ++ p :: after) = true) : marked p.rtp = after.isEmpty := by
  induction before with
  | nil =>
      cases after with
      | nil => exact h
      | cons q rest =>
          simp only [List.nil_append, markedLast, Bool.and_eq_true, Bool.not_eq_true'] at h
          exact h.1
  | cons q before ih =>
      refine ih ?_
      cases before with
      | nil =>
          simp only [List.cons_append, List.nil_append, markedLast, Bool.and_eq_true] at h
          exact h.2
      | cons r before =>
          simp only [List.cons_append, markedLast, Bool.and_eq_true] at h
          exact h.2

theorem exists_split_cons {α : Type} {P : List α → α → Prop} {y : α} {rest : List α} :
    (∃ pre x post, y :: rest = pre ++ x :: post ∧ P pre x) ↔
      P [] y ∨ ∃ pre x post, rest = pre ++ x :: post ∧ P (y :: pre) x := by
  constructor
  · rintro ⟨pre, x, post, he, hp⟩
    cases pre with
    | nil =>
        obtain ⟨rfl, rfl⟩ := List.cons.inj he
        exact .inl hp
    | cons z pre =>
        obtain ⟨rfl, rfl⟩ := List.cons.inj he
        exact .inr ⟨pre, x, post, rfl, hp⟩
  · rintro (hp | ⟨pre, x, post, rfl, hp⟩)
    · exact ⟨[], y, rest, rfl, hp⟩
    · exact ⟨y :: pre, x, post, rfl, hp⟩

theorem exists_split_flatten {α : Type} {P : List α → α → Prop} {groups : List (List α)} :
    (∃ pre x post, groups.flatten = pre ++ x :: post ∧ P pre x) ↔
      ∃ before xs x ys after, groups = before ++ (xs ++ x :: ys) :: after ∧
        P (before.flatten ++ xs) x := by
  constructor
  · rintro ⟨pre, x, post, he, hp⟩
    rcases List.flatten_eq_append_iff.mp he with ⟨as, bs, rfl, rfl, hb⟩ | ⟨as, bs, c, cs, ds, rfl, rfl, hc⟩
    · obtain ⟨empty, ys, after, rfl, hempty, -⟩ := List.flatten_eq_cons_iff.mp hb.symm
      refine ⟨as ++ empty, [], x, ys, after, by simp, ?_⟩
      rwa [List.append_nil, List.flatten_append, List.flatten_eq_nil_iff.mpr hempty, List.append_nil]
    · obtain ⟨rfl, -⟩ := List.cons.inj hc
      exact ⟨as, bs, x, cs, ds, rfl, hp⟩
  · rintro ⟨before, xs, x, ys, after, rfl, hp⟩
    exact ⟨before.flatten ++ xs, x, ys ++ after.flatten, by simp, hp⟩

namespace Wire

variable {type : CodecType} {H : Type} (w : Wire type H)

-- The parser has started when the unit after `before` comes.
def Started (t : ParserThread) (before : List (Sending H)) : Prop :=
  t.isStart = true ∨ ∃ y ∈ before, w.starts y = true

variable {w}

theorem started_cons_ready {t u : ParserThread} {y : Sending H} {before : List (Sending H)}
    (hu : u.isStart = true) (hy : t.isStart = true ∨ w.starts y = true) :
    w.Started t (y :: before) ↔ w.Started u before := by
  refine ⟨fun _ => .inl hu, fun _ => ?_⟩
  rcases hy with hy | hy
  · exact .inl hy
  · exact .inr ⟨y, by simp, hy⟩

theorem started_cons_waiting {t u : ParserThread} {y : Sending H} {before : List (Sending H)}
    (ht : t.isStart = false) (hu : u.isStart = false) (hy : w.starts y = false) :
    w.Started t (y :: before) ↔ w.Started u before := by
  simp [Started, ht, hu, hy]

theorem aborts_append {es fs : List (Bool × List UInt8)} {t u : ParserThread}
    {calls : List Callback} (h : feed type es t = .ok (calls, u)) :
    Aborts (feed type (es ++ fs) t) ↔ Aborts (feed type fs u) := by
  cases hf : feed type fs u with
  | error f => rw [feed_append_error_right h hf]
  | ok r => simp [feed_append_ok h hf, Aborts]

-- A run over units is aborted by the first one with marker bits the checks do not allow, among
-- those that come after the start.
theorem aborts_units_iff {units : List (Sending H)} {t : ParserThread}
    (hv : ∀ x ∈ units, w.Valid x) (hi : Idle t) :
    Aborts (feed type (w.stream units) t) ↔
      ∃ pre x post, units = pre ++ x :: post ∧ w.Started t pre ∧ ¬ x.EndsMarked := by
  induction units generalizing t with
  | nil => simp [stream, feed, Aborts]
  | cons y rest ih =>
      have hy : w.Valid y := hv y (by simp)
      have hrest : ∀ x ∈ rest, w.Valid x := fun x hx => hv x (List.mem_cons_of_mem _ hx)
      rw [stream_cons, exists_split_cons]
      by_cases hs : t.isStart = true
      · have hr : Ready t := ⟨hs, hi⟩
        by_cases hm : y.EndsMarked
        · obtain ⟨calls, u, hu, hru, -⟩ := feed_unit_ok hy hm hr
          rw [aborts_append hu, ih hrest hru.2]
          simp only [started_cons_ready hru.1 (.inl hs), hm, not_true, and_false, false_or]
        · obtain ⟨exp, he⟩ := feed_unit_check hy hm hr
          exact iff_of_true ⟨exp, feed_append_error he⟩ (.inl ⟨.inl hs, hm⟩)
      have hs : t.isStart = false := by simpa using hs
      have hn : ¬ w.Started t [] := by simp [Started, hs]
      by_cases hy' : w.starts y = true
      · obtain ⟨calls, u, hu, hru, -⟩ := feed_start_ok hy hy' hi
        rw [aborts_append hu, ih hrest hru.2]
        simp only [started_cons_ready hru.1 (.inr hy'), hn, false_and, false_or]
      · have hy' : w.starts y = false := by simpa using hy'
        obtain ⟨u, hu, hwu⟩ := feed_unit_waiting hy' ⟨hs, hi⟩
        rw [aborts_append hu, ih hrest hwu.2]
        simp only [started_cons_waiting hs hwu.1 hy', hn, false_and, false_or]

-- In an access unit the fragments of a unit end marked only if no other unit follows.
theorem endsMarked_iff {xs ys : List (Sending H)} {x : Sending H}
    (hl : markedLast ((xs ++ x :: ys).flatMap (Sending.packets w.format)) = true)
    (hf : x.fragmented = true) : x.EndsMarked ↔ ys = [] := by
  cases x with
  | whole rtp h body => simp [Sending.fragmented] at hf
  | fragments h first middle last =>
      have hfirst : marked first.1 = false := by
        rw [List.flatMap_append, List.flatMap_cons, Sending.packets, List.cons_append,
          List.cons_append] at hl
        rw [markedLast_split hl]
        simp
      have hlast : marked last.1 = (ys.flatMap (Sending.packets w.format)).isEmpty := by
        have he : (xs ++ .fragments h first middle last :: ys).flatMap (Sending.packets w.format) =
            (xs.flatMap (Sending.packets w.format) ++
              ⟨first.1, w.format.fragment true false h ++ first.2⟩ ::
                middle.map fun piece => ⟨piece.1, w.format.fragment false false h ++ piece.2⟩) ++
            ⟨last.1, w.format.fragment false true h ++ last.2⟩ ::
              ys.flatMap (Sending.packets w.format) := by
          simp [Sending.packets]
        rw [he] at hl
        exact markedLast_split hl
      have hempty : ys.flatMap (Sending.packets w.format) = [] ↔ ys = [] := by
        cases ys with
        | nil => simp
        | cons y ys => simp [Sending.packets_ne_nil]
      simp only [Sending.EndsMarked, hfirst, hlast, List.isEmpty_iff, hempty, true_and]

theorem endsMarked_of_whole {x : Sending H} (hf : x.fragmented = false) : x.EndsMarked := by
  cases x with
  | whole rtp h body => trivial
  | fragments h first middle last => simp [Sending.fragmented] at hf

end Wire

-- The checks hold along a valid stream exactly when every fragmented unit after the start is
-- the last unit of its access unit.
theorem checks_hold_iff (type : CodecType) (t : ParserThread)
    (accessUnits : List (List (Sending (NalHeader type)))) (hi : Idle t)
    (hv : ∀ unit ∈ accessUnits.flatten, (wire type).Valid unit)
    (hm : ∀ au ∈ accessUnits,
      markedLast (au.flatMap (Sending.packets (wire type).format)) = true) :
    ¬ Aborts (feed type ((wire type).stream accessUnits.flatten) t) ↔
      ∀ before xs x ys after, accessUnits = before ++ (xs ++ x :: ys) :: after →
        x.fragmented = true → (wire type).Started t (before.flatten ++ xs) → ys = [] := by
  rw [Wire.aborts_units_iff hv hi, exists_split_flatten]
  constructor
  · intro h before xs x ys after he hf hs
    have hau : xs ++ x :: ys ∈ accessUnits := by simp [he]
    rw [← Wire.endsMarked_iff (hm _ hau) hf]
    by_contra hn
    exact h ⟨before, xs, x, ys, after, he, hs, hn⟩
  · rintro h ⟨before, xs, x, ys, after, he, hs, hn⟩
    have hf : x.fragmented = true := by
      by_contra hf
      exact hn (Wire.endsMarked_of_whole (by simpa using hf))
    have hau : xs ++ x :: ys ∈ accessUnits := by simp [he]
    exact hn ((Wire.endsMarked_iff (hm _ hau) hf).mpr (h before xs x ys after he hf hs))

-- A picture of two slices, the first of them in two fragments.
def twoSlices : List (Sending (NalHeader .H264)) :=
  [.whole plainRtp (0x67 : UInt8) [], .fragments (0x65 : UInt8) (plainRtp, [1]) [] (plainRtp, [2]),
    .whole markedRtp (0x65 : UInt8) [3]]

theorem twoSlices_valid : ∀ unit ∈ twoSlices, (wire .H264).Valid unit := by
  have h5 : 1 ≤ (0x65 : UInt8) &&& 0x1f ∧ (0x65 : UInt8) &&& 0x1f ≤ 23 := by decide
  have h7 : 1 ≤ (0x67 : UInt8) &&& 0x1f ∧ (0x67 : UInt8) &&& 0x1f ≤ 23 := by decide
  intro unit hu
  simp only [twoSlices, List.mem_cons, List.not_mem_nil, or_false] at hu
  rcases hu with rfl | rfl | rfl
  · exact .inr h7
  · exact .inl rfl
  · exact .inr h5

theorem twoSlices_marked :
    markedLast (twoSlices.flatMap (Sending.packets (wire .H264).format)) = true := by
  decide

-- A picture of one slice in three fragments, behind its parameter set.
def oneSlice : List (Sending (NalHeader .H264)) :=
  [.whole plainRtp (0x67 : UInt8) [],
    .fragments (0x65 : UInt8) (plainRtp, [1]) [(plainRtp, [2])] (markedRtp, [3])]

theorem checks_hold_one_slice :
    ¬ Aborts (feed .H264 ((wire .H264).stream [oneSlice].flatten) {}) := by
  refine (checks_hold_iff .H264 {} [oneSlice] rfl ?_ ?_).mpr ?_
  · intro unit hu
    rw [List.flatten_singleton, oneSlice, List.mem_cons, List.mem_singleton] at hu
    rcases hu with rfl | rfl
    · exact .inr (by decide : 1 ≤ (0x67 : UInt8) &&& 0x1f ∧ (0x67 : UInt8) &&& 0x1f ≤ 23)
    · exact .inl rfl
  · intro au hau
    rw [List.mem_singleton.mp hau]
    decide
  · intro before xs x ys after he hf _
    have hau : xs ++ x :: ys = oneSlice := by
      have hmem : xs ++ x :: ys ∈ [oneSlice] := by simp [he]
      exact List.mem_singleton.mp hmem
    cases xs with
    | nil =>
        -- the parameter set is not fragmented
        obtain ⟨rfl, -⟩ := List.cons.inj hau
        cases hf
    | cons y xs =>
        cases xs with
        | nil => exact (List.cons.inj (List.cons.inj hau).2).2
        | cons z xs => exact absurd (List.cons.inj (List.cons.inj hau).2).2 (by simp)

theorem two_slices_abort :
    ¬ ∀ (type : CodecType) (t : ParserThread) (accessUnits : List (List (Sending (NalHeader type)))),
      Idle t → (∀ unit ∈ accessUnits.flatten, (wire type).Valid unit) →
      (∀ au ∈ accessUnits,
        markedLast (au.flatMap (Sending.packets (wire type).format)) = true) →
      ¬ Aborts (feed type ((wire type).stream accessUnits.flatten) t) := by
  intro h
  have hv : ∀ unit ∈ [twoSlices].flatten, (wire .H264).Valid unit := by
    rw [List.flatten_singleton]
    exact twoSlices_valid
  refine h .H264 {} [twoSlices] rfl hv (fun au hau => ?_) ?_
  · rw [List.mem_singleton.mp hau]
    exact twoSlices_marked
  · rw [List.flatten_singleton] at hv ⊢
    have hi : Idle {} := rfl
    refine (Wire.aborts_units_iff hv hi).mpr ⟨[_], _, _, rfl, .inr ⟨_, List.mem_cons_self .., rfl⟩, ?_⟩
    exact fun hm => absurd hm.2 (by decide)

end Vcu
