import Mathlib.Data.Bool.AllAny
import Vcu.Common.Searching
import Vcu.Common.Splitting
import Vcu.RtspDataManager.Branches
import Vcu.RtspDataManager.Lockstep

namespace Vcu

open Machine Runs StdString

def realmKey : List Char := "realm=\"".toList

def nonceKey : List Char := "nonce=\"".toList

-- What cuts a response for the challenge: the ends of lines, and commas.
def cuts (c : Char) : Bool := "\r\n".toList.contains c || [','].contains c

def pieces (t : List Char) : List (List Char) := runs cuts t

def readPieces (g : RtspGlobals) (t : List Char) :
    RtspGlobals := (pieces t).foldl RtspGlobals.challengePart g

section Pieces

variable {g : RtspGlobals} {p t u lead v : List Char} {c : Char}

theorem realmKey_eq : realmKey = "realm=".toList ++ ['"'] := by decide

theorem nonceKey_eq : nonceKey = "nonce=".toList ++ ['"'] := by decide

theorem realmKey_ne_nil : realmKey ≠ [] := by decide

theorem cuts_realmKey : ∀ x ∈ realmKey, cuts x = false := List.all_iff_forall_prop.mp (by decide)

theorem cuts_nonceKey : ∀ x ∈ nonceKey, cuts x = false := List.all_iff_forall_prop.mp (by decide)

-- One piece.

theorem quoted_append (lead key v : List Char) :
    RtspGlobals.quoted (lead ++ key ++ v) key lead.length = v.dropLast := by
  rw [RtspGlobals.quoted, substr, ← List.length_append, List.drop_left, List.dropLast_eq_take]
  congr 1
  simp only [List.length_append]
  omega

theorem realmOf_eq_none (h : ¬ realmKey <:+: p) : realmOf p = none := by
  rw [realmOf, show "realm=\"".toList = realmKey from rfl, find_eq_none h]
  rfl

theorem nonceOf_eq_none (h : ¬ nonceKey <:+: p ∨ realmKey <:+: p) : nonceOf p = none := by
  unfold nonceOf realmOf
  rw [show "realm=\"".toList = realmKey from rfl, show "nonce=\"".toList = nonceKey from rfl, Option.isSome_map]
  split
  · rfl
  · rename_i hr
    rw [find_isSome_iff] at hr
    rw [find_eq_none (h.resolve_right hr)]
    rfl

theorem realmOf_append (h : ¬ realmKey <:+: lead) : realmOf (lead ++ realmKey ++ v) = some v.dropLast := by
  have hfind : find (lead ++ realmKey ++ v) realmKey = some lead.length := by
    rw [realmKey_eq] at h ⊢
    exact find_append_key (by decide) h
  rw [realmOf, show "realm=\"".toList = realmKey from rfl, hfind, Option.map_some, quoted_append]

theorem nonceOf_append (hr : ¬ realmKey <:+: lead ++ nonceKey ++ v) (h : ¬ nonceKey <:+: lead) :
    nonceOf (lead ++ nonceKey ++ v) = some v.dropLast := by
  have hfind : find (lead ++ nonceKey ++ v) nonceKey = some lead.length := by
    rw [nonceKey_eq] at h ⊢
    exact find_append_key (by decide) h
  rw [nonceOf, realmOf_eq_none hr, if_neg (by simp), show "nonce=\"".toList = nonceKey from rfl, hfind,
    Option.map_some, quoted_append]

theorem challengePart_of_not (hr : ¬ realmKey <:+: p) (hn : ¬ nonceKey <:+: p) :
    g.challengePart p = g := by
  rw [RtspGlobals.challengePart_eq, realmOf_eq_none hr, nonceOf_eq_none (.inl hn)]
  rfl

theorem challengePart_realm (h : ¬ realmKey <:+: lead) :
    g.challengePart (lead ++ realmKey ++ v) = { g with REALM := v.dropLast } := by
  rw [RtspGlobals.challengePart_eq, realmOf_append h,
    nonceOf_eq_none (.inr (List.infix_append lead realmKey v))]
  rfl

theorem challengePart_nonce (hr : ¬ realmKey <:+: lead ++ nonceKey ++ v) (h : ¬ nonceKey <:+: lead) :
    g.challengePart (lead ++ nonceKey ++ v) = { g with NONECE := v.dropLast } := by
  rw [RtspGlobals.challengePart_eq, realmOf_eq_none hr, nonceOf_append hr h]
  rfl

theorem challengePart_REALM (hr : ¬ realmKey <:+: p) : (g.challengePart p).REALM = g.REALM := by
  rw [RtspGlobals.challengePart_eq, realmOf_eq_none hr]
  rfl

theorem challengePart_NONECE (h : ¬ nonceKey <:+: p ∨ realmKey <:+: p) :
    (g.challengePart p).NONECE = g.NONECE := by
  rw [RtspGlobals.challengePart_eq, nonceOf_eq_none h]
  rfl

-- A value never holds a comma.
def CommaFree (g : RtspGlobals) : Prop := ',' ∉ g.REALM ∧ ',' ∉ g.NONECE

theorem CommaFree.challengePart (hg : CommaFree g) (hp : ',' ∉ p) : CommaFree (g.challengePart p) := by
  rw [RtspGlobals.challengePart_eq]
  constructor
  · cases hrealm : realmOf p with
    | none => exact hg.1
    | some v => exact fun h => hp ((realmOf_sublist hrealm).mem h)
  · cases hnonce : nonceOf p with
    | none => exact hg.2
    | some v => exact fun h => hp ((nonceOf_sublist hnonce).mem h)

-- All pieces of a text.

theorem commaFree_of_mem (hp : p ∈ pieces t) : ',' ∉ p := by
  intro hmem
  exact absurd ((of_mem_runs hp).2.2 ',' hmem) (by decide)

theorem foldl_commaFree (ps : List (List Char)) (hps : ∀ p ∈ ps, ',' ∉ p) (hg : CommaFree g) :
    CommaFree (ps.foldl RtspGlobals.challengePart g) := by
  refine List.foldlRecOn (motive := CommaFree) ps _ hg ?_
  intro u hu p hp
  exact hu.challengePart (hps p hp)

theorem foldl_REALM (ps : List (List Char)) (hps : ∀ p ∈ ps, ¬ realmKey <:+: p) :
    (ps.foldl RtspGlobals.challengePart g).REALM = g.REALM := by
  refine List.foldlRecOn (motive := fun u : RtspGlobals => u.REALM = g.REALM) ps _ rfl ?_
  intro u hu p hp
  exact (challengePart_REALM (hps p hp)).trans hu

theorem foldl_NONECE (ps : List (List Char)) (hps : ∀ p ∈ ps, ¬ nonceKey <:+: p) :
    (ps.foldl RtspGlobals.challengePart g).NONECE = g.NONECE := by
  refine List.foldlRecOn (motive := fun u : RtspGlobals => u.NONECE = g.NONECE) ps _ rfl ?_
  intro u hu p hp
  exact (challengePart_NONECE (Or.inl (hps p hp))).trans hu

-- The last piece that names a realm is the one that counts.
theorem foldl_REALM_of_last {realm : List Char} {x : Char} (front : List (List Char))
    {back : List (List Char)} (hlead : ¬ realmKey <:+: lead) (hback : ∀ p ∈ back, ¬ realmKey <:+: p) :
    ((front ++ (lead ++ realmKey ++ (realm ++ [x])) :: back).foldl RtspGlobals.challengePart g).REALM =
      realm := by
  rw [List.foldl_append, List.foldl_cons, foldl_REALM back hback, challengePart_realm hlead,
    List.dropLast_concat]

theorem exists_last_of_foldl_REALM (ps : List (List Char)) (hps : ∃ p ∈ ps, realmKey <:+: p)
    (hne : (ps.foldl RtspGlobals.challengePart g).REALM ≠ []) :
    ∃ front lead x back, ¬ realmKey <:+: lead ∧ (∀ p ∈ back, ¬ realmKey <:+: p) ∧
      ps = front ++
        (lead ++ realmKey ++ ((ps.foldl RtspGlobals.challengePart g).REALM ++ [x])) :: back := by
  induction ps using List.reverseRecOn with
  | nil =>
      obtain ⟨p, hp, -⟩ := hps
      cases hp
  | append_singleton ps p ih =>
      rw [List.foldl_concat] at hne ⊢
      by_cases hp : realmKey <:+: p
      · obtain ⟨lead, v, rfl, hlead⟩ := Infix.exists_first realmKey_ne_nil hp
        rw [challengePart_realm hlead] at hne ⊢
        have hv : v ≠ [] := by
          rintro rfl
          exact hne rfl
        refine ⟨ps, lead, v.getLast hv, [], hlead, nofun, ?_⟩
        rw [List.dropLast_concat_getLast]
      · rw [challengePart_REALM hp] at hne ⊢
        obtain ⟨q, hq, hpart⟩ := hps
        have hqps : q ∈ ps := by
          rcases List.mem_append.mp hq with hq | hq
          · exact hq
          · rw [List.mem_singleton.mp hq] at hpart
            exact absurd hpart hp
        obtain ⟨front, lead, x, back, hlead, hback, heq⟩ := ih ⟨q, hqps, hpart⟩ hne
        refine ⟨front, lead, x, back ++ [p], hlead, ?_, ?_⟩
        · intro r hr
          rcases List.mem_append.mp hr with hr | hr
          · exact hback r hr
          · rw [List.mem_singleton.mp hr]
            exact hp
        · rw [← List.cons_append, ← List.append_assoc, ← heq]

theorem readPieces_append_cons (hc : cuts c = true) (g : RtspGlobals) (t u : List Char) :
    readPieces g (t ++ c :: u) = readPieces (readPieces g t) u := by
  rw [readPieces, pieces, runs_append_cons hc, List.foldl_append]
  rfl

theorem readPieces_commaFree (hg : CommaFree g) (t : List Char) : CommaFree (readPieces g t) :=
  foldl_commaFree _ (fun _ hp => commaFree_of_mem hp) hg

theorem readPieces_REALM (h : ¬ realmKey <:+: t) : (readPieces g t).REALM = g.REALM :=
  foldl_REALM _ fun _ hp hpart => h (hpart.trans (of_mem_runs hp).1)

theorem readPieces_NONECE (h : ¬ nonceKey <:+: t) : (readPieces g t).NONECE = g.NONECE :=
  foldl_NONECE _ fun _ hp hpart => h (hpart.trans (of_mem_runs hp).1)

-- A text that names neither parameter changes nothing.
theorem readPieces_of_not (hr : ¬ realmKey <:+: t) (hn : ¬ nonceKey <:+: t) : readPieces g t = g := by
  unfold readPieces
  apply List.foldlRecOn (motive := fun u => u = g)
  · rfl
  · rintro u rfl p hp
    have hpart := (of_mem_runs hp).1
    exact challengePart_of_not (fun h => hr (h.trans hpart)) (fun h => hn (h.trans hpart))

-- Only the last piece of such a text can grow into one that does.
theorem readPieces_append (hr : ¬ realmKey <:+: lead) (hn : ¬ nonceKey <:+: lead)
    (hv : ∀ x ∈ v, cuts x = false) (hne : v ≠ []) (g : RtspGlobals) :
    ∃ rest, ¬ realmKey <:+: rest ∧ ¬ nonceKey <:+: rest ∧
      readPieces g (lead ++ v) = g.challengePart (rest ++ v) := by
  induction lead using cut_induction (p := cuts) with
  | hnone lead hlead =>
      refine ⟨lead, hr, hn, ?_⟩
      have hall : ∀ x ∈ lead ++ v, cuts x = false := fun x hx =>
        (List.mem_append.mp hx).elim (hlead x) (hv x)
      rw [readPieces, pieces, runs_none hall (List.append_ne_nil_of_right_ne_nil lead hne)]
      rfl
  | hcut s c t hs hc ih =>
      obtain ⟨rest, hrr, hrn, heq⟩ :=
        ih (fun h => hr (List.infix_append_of_infix_right (List.infix_cons h)))
          (fun h => hn (List.infix_append_of_infix_right (List.infix_cons h)))
      refine ⟨rest, hrr, hrn, ?_⟩
      rw [List.append_assoc, List.cons_append, readPieces_append_cons hc,
        readPieces_of_not (fun h => hr (h.trans List.infix_append_left))
          (fun h => hn (h.trans List.infix_append_left)), heq]

end Pieces

section Branches

variable {g u : RtspGlobals}

-- The branch for the challenge reads the pieces, and checks that there are both values.
theorem challenge_ok_iff (g u : RtspGlobals) (t : List Char) :
    g.challenge t = .ok u ↔
      u = readPieces { g with isfirst := false, needCertify := true } t ∧ u.NONECE ≠ [] ∧ u.REALM ≠ [] := by
  have hlines : (splitString t "\r\n".toList).flatMap (fun line => splitString line [',']) = pieces t := by
    simp only [splitString_eq_runs]
    exact flatMap_runs _ _ t
  unfold RtspGlobals.challenge
  dsimp only
  rw [hlines]
  constructor
  · intro h
    obtain ⟨_, hcheck, h⟩ := of_bind_ok h
    have hboth := RtspGlobals.fservoCheck_ok hcheck
    cases h
    simp only [Bool.and_eq_true, decide_eq_true_eq] at hboth
    exact ⟨rfl, hboth⟩
  · rintro ⟨rfl, hnonce, hrealm⟩
    have hcheck : (decide ((readPieces { g with isfirst := false, needCertify := true } t).NONECE ≠ []) &&
        decide ((readPieces { g with isfirst := false, needCertify := true } t).REALM ≠ [])) = true := by
      rw [decide_eq_true hnonce, decide_eq_true hrealm]
      rfl
    unfold readPieces at hcheck
    rw [hcheck]
    rfl

-- A response that leaves the flag set leaves the values as well.
theorem parser_of_isfirst {response : List Char} (h : g.parser response = .ok u)
    (hfirst : u.isfirst = true) :
    g.isfirst = true ∧ u.REALM = g.REALM ∧ u.NONECE = g.NONECE := by
  unfold RtspGlobals.parser at h
  split at h
  · obtain ⟨rfl, -⟩ := (challenge_ok_iff g u response).mp h
    rw [readPieces, RtspGlobals.foldl_challengePart_eq] at hfirst
    cases hfirst
  · split at h
    · obtain rfl := RtspGlobals.foldlM_sessionLine_eq _ h
      exact ⟨hfirst, rfl, rfl⟩
    · split at h
      · cases h
        rw [RtspGlobals.foldl_mediaLine_eq] at hfirst ⊢
        exact ⟨hfirst, rfl, rfl⟩
      · cases h
        exact ⟨hfirst, rfl, rfl⟩

-- Before the challenge has been read there is no realm and no nonce.
theorem noChallenge_of_isfirst {earlier : List (List Char)} (hrun : afterResponses earlier = some g)
    (hfirst : g.isfirst = true) : g.REALM = [] ∧ g.NONECE = [] := by
  refine run_invariant (fun _ g => g.isfirst = true → g.REALM = [] ∧ g.NONECE = []) (fun _ => ⟨rfl, rfl⟩) ?_
    hrun hfirst
  intro es g response u ih hstep hu
  have hok : g.parser response = .ok u := by
    cases hp : g.parser response with
    | error e =>
        rw [hp] at hstep
        cases hstep
    | ok v =>
        rw [hp] at hstep
        cases hstep
        rfl
  obtain ⟨hg, hrealm, hnonce⟩ := parser_of_isfirst hok hu
  rw [hrealm, hnonce]
  exact ih hg

end Branches

-- A parameter as it stands in the header, with the spaces around it.
def parameter (key value : List Char) (left right : Nat) : List Char :=
  List.replicate left ' ' ++ key ++ (value ++ '"' :: List.replicate right ' ')

-- What is read of it: all but the last character.
def readValue (value : List Char) (right : Nat) : List Char :=
  (value ++ '"' :: List.replicate right ' ').dropLast

section Parameters

variable {g : RtspGlobals} {lead value : List Char} {left right : Nat}

theorem quote_notMem_spaces (n : Nat) : '"' ∉ List.replicate n ' ' := fun h =>
  absurd (List.eq_of_mem_replicate h) (by decide)

theorem readValue_eq_iff (value : List Char) (right : Nat) :
    readValue value right = value ↔ right = 0 := by
  constructor
  · intro h
    have hlen := congrArg List.length h
    simp only [readValue, List.length_dropLast, List.length_append, List.length_cons,
      List.length_replicate] at hlen
    omega
  · rintro rfl
    exact List.dropLast_concat

theorem cuts_parameter {key : List Char} (hkey : ∀ x ∈ key, cuts x = false) (left right : Nat)
    (hvalue : ∀ x ∈ value, cuts x = false) : ∀ x ∈ parameter key value left right, cuts x = false := by
  intro x hx
  simp only [parameter, List.mem_append, List.mem_cons] at hx
  rcases hx with (hx | hx) | hx | rfl | hx
  · rw [List.eq_of_mem_replicate hx]
    decide
  · exact hkey x hx
  · exact hvalue x hx
  · decide
  · rw [List.eq_of_mem_replicate hx]
    decide

theorem parameter_ne_nil (key : List Char) : parameter key value left right ≠ [] := by
  simp [parameter]

theorem append_parameter (lead key value : List Char) (left right : Nat) :
    lead ++ parameter key value left right =
      lead ++ List.replicate left ' ' ++ key ++ (value ++ '"' :: List.replicate right ' ') := by
  rw [parameter, List.append_assoc lead, ← List.append_assoc, List.append_assoc lead]

theorem not_realm_append_spaces (h : ¬ realmKey <:+: lead) (n : Nat) :
    ¬ realmKey <:+: lead ++ List.replicate n ' ' := by
  rw [realmKey_eq] at h ⊢
  exact fun hpart => h (Infix.infix_of_append (quote_notMem_spaces n) hpart)

theorem not_nonce_append_spaces (h : ¬ nonceKey <:+: lead) (n : Nat) :
    ¬ nonceKey <:+: lead ++ List.replicate n ' ' := by
  rw [nonceKey_eq] at h ⊢
  exact fun hpart => h (Infix.infix_of_append (quote_notMem_spaces n) hpart)

theorem readPieces_realm (hr : ¬ realmKey <:+: lead) (hn : ¬ nonceKey <:+: lead)
    (hvalue : ∀ x ∈ value, cuts x = false) :
    readPieces g (lead ++ parameter realmKey value left right) =
      { g with REALM := readValue value right } := by
  obtain ⟨rest, hrest, -, heq⟩ := readPieces_append hr hn
    (cuts_parameter cuts_realmKey left right hvalue) (parameter_ne_nil realmKey) g
  rw [heq, append_parameter]
  exact challengePart_realm (not_realm_append_spaces hrest left)

-- A nonce is read as a realm when it ends in that name.
theorem realm_infix_nonce_iff (right : Nat) (hr : ¬ realmKey <:+: lead) (hquote : '"' ∉ value) :
    realmKey <:+: lead ++ nonceKey ++ (value ++ '"' :: List.replicate right ' ') ↔
      "realm=".toList <:+ value := by
  have hassoc : lead ++ nonceKey ++ value = lead ++ "nonce=".toList ++ '"' :: value := by
    rw [nonceKey_eq]
    simp
  rw [← List.append_assoc, hassoc]
  constructor
  · intro h
    rw [realmKey_eq] at h hr
    rcases (Infix.concat_infix_append_cons (by decide)).mp h with h | h | h
    · rcases (Infix.concat_infix_append_cons (by decide)).mp h with h | h | h
      · exact absurd (Infix.infix_of_append (by decide) h) hr
      · have heq := (List.suffix_of_suffix_length_le h (List.suffix_append lead _) (by decide)).eq_of_length
          (by decide)
        exact absurd heq (by decide)
      · exact absurd (h.mem (by simp)) hquote
    · exact Infix.suffix_of_append_cons (by decide) h
    · exact absurd (h.mem (by simp)) (quote_notMem_spaces right)
  · rintro ⟨t, rfl⟩
    rw [realmKey_eq]
    exact ⟨lead ++ "nonce=".toList ++ '"' :: t, List.replicate right ' ', by simp⟩

theorem readPieces_nonce (g : RtspGlobals) (left right : Nat) (hr : ¬ realmKey <:+: lead)
    (hn : ¬ nonceKey <:+: lead) (hvalue : ∀ x ∈ value, cuts x = false) (hquote : '"' ∉ value) :
    ("realm=".toList <:+ value →
        (readPieces g (lead ++ parameter nonceKey value left right)).NONECE = g.NONECE) ∧
      (¬ "realm=".toList <:+ value →
        readPieces g (lead ++ parameter nonceKey value left right) =
          { g with NONECE := readValue value right }) := by
  obtain ⟨rest, hrr, hrn, heq⟩ := readPieces_append hr hn
    (cuts_parameter cuts_nonceKey left right hvalue) (parameter_ne_nil nonceKey) g
  rw [heq, append_parameter]
  have hiff := realm_infix_nonce_iff right (not_realm_append_spaces hrr left) hquote
  constructor
  · intro hend
    exact challengePart_NONECE (Or.inr (hiff.mpr hend))
  · intro hend
    exact challengePart_nonce (mt hiff.mp hend) (not_nonce_append_spaces hrn left)

end Parameters

def scheme : List Char := "WWW-Authenticate: Digest ".toList

-- A response with one Digest header. The other parameters of the header are in `front`, `middle` and
-- `back`, and the other lines in `before` and `after`. They can name a realm, as a Basic header does,
-- and a nonce is named in this header only.
structure DigestResponse where
  realm : List Char
  nonce : List Char
  realmFirst : Bool
  realmLeft : Nat
  realmRight : Nat
  nonceLeft : Nat
  nonceRight : Nat
  front : List (List Char)
  middle : List (List Char)
  back : List (List Char)
  before : List Char
  after : List Char
  values : ∀ x ∈ realm ++ nonce, x ≠ '"' ∧ x ≠ '\r' ∧ x ≠ '\n'
  others : ∀ p ∈ front ++ middle ++ back, ¬ realmKey <:+: p ∧ ¬ nonceKey <:+: p
  line_start : before = [] ∨ ∃ t, ∃ c ∈ "\r\n".toList, before = t ++ [c]
  line_end : after = [] ∨ ∃ t, ∃ c ∈ "\r\n".toList, after = c :: t
  one_nonce : ¬ nonceKey <:+: before ∧ ¬ nonceKey <:+: after

namespace DigestResponse

def realmParameter (c : DigestResponse) : List Char := parameter realmKey c.realm c.realmLeft c.realmRight

def nonceParameter (c : DigestResponse) : List Char := parameter nonceKey c.nonce c.nonceLeft c.nonceRight

def first (c : DigestResponse) : List Char := if c.realmFirst then c.realmParameter else c.nonceParameter

def second (c : DigestResponse) : List Char := if c.realmFirst then c.nonceParameter else c.realmParameter

def header (c : DigestResponse) : List Char :=
  scheme ++ [','].intercalate (c.front ++ c.first :: (c.middle ++ c.second :: c.back))

def text (c : DigestResponse) : List Char := c.before ++ c.header ++ c.after

-- The last piece of a text that names a realm reads this one and one more character.
def LastRealm (t realm : List Char) : Prop :=
  ∃ front lead x back, ¬ realmKey <:+: lead ∧ (∀ p ∈ back, ¬ realmKey <:+: p) ∧
    pieces t = front ++ (lead ++ realmKey ++ (realm ++ [x])) :: back

structure Extractable (c : DigestResponse) : Prop where
  realm_ne : c.realm ≠ []
  nonce_ne : c.nonce ≠ []
  realm_comma : ',' ∉ c.realm
  nonce_comma : ',' ∉ c.nonce
  nonce_end : ¬ "realm=".toList <:+ c.nonce
  nonce_right : c.nonceRight = 0
  realm_read : (c.realmRight = 0 ∧ ¬ realmKey <:+: c.after) ∨ LastRealm c.after c.realm

section Responses

variable {c : DigestResponse} {g u : RtspGlobals} {t : List Char}

theorem cuts_of_mem_newline {x : Char} (hx : x ∈ "\r\n".toList) : cuts x = true := by
  unfold cuts
  rw [List.contains_iff_mem.mpr hx, Bool.true_or]

theorem readPieces_before (c : DigestResponse) (g : RtspGlobals) (t : List Char) :
    readPieces g (c.before ++ t) = readPieces (readPieces g c.before) t := by
  rcases c.line_start with h | ⟨b, x, hx, h⟩
  · rw [h]
    rfl
  · have hend : readPieces g (b ++ [x]) = readPieces g b :=
      readPieces_append_cons (cuts_of_mem_newline hx) g b []
    rw [h, List.append_assoc, List.singleton_append, readPieces_append_cons (cuts_of_mem_newline hx), hend]

theorem readPieces_after (c : DigestResponse) (g : RtspGlobals) (t : List Char) :
    readPieces g (t ++ c.after) = readPieces (readPieces g t) c.after := by
  rcases c.line_end with h | ⟨b, x, hx, h⟩
  · rw [h, List.append_nil]
    rfl
  · have hstart := readPieces_append_cons (cuts_of_mem_newline hx) (readPieces g t) [] b
    rw [h, readPieces_append_cons (cuts_of_mem_newline hx)]
    exact hstart.symm

-- The parameters are read one after the other.
theorem readPieces_intercalate (g : RtspGlobals) (ps : List (List Char)) :
    readPieces g ([','].intercalate ps) = ps.foldl readPieces g := by
  induction ps generalizing g with
  | nil => rfl
  | cons p ps ih =>
      cases ps with
      | nil => simp
      | cons q ps =>
          rw [List.intercalate_cons_cons, List.append_assoc, List.singleton_append,
            readPieces_append_cons (by decide), ih]
          rfl

theorem append_intercalate (lead p : List Char) (ps : List (List Char)) :
    lead ++ [','].intercalate (p :: ps) = [','].intercalate ((lead ++ p) :: ps) := by
  cases ps with
  | nil => simp
  | cons q ps => rw [List.intercalate_cons_cons, List.intercalate_cons_cons, ← List.append_assoc,
      ← List.append_assoc]

theorem foldl_readPieces_others (g : RtspGlobals) (ps : List (List Char))
    (hps : ∀ p ∈ ps, ¬ realmKey <:+: p ∧ ¬ nonceKey <:+: p) : ps.foldl readPieces g = g := by
  induction ps with
  | nil => rfl
  | cons p ps ih =>
      obtain ⟨hr, hn⟩ := hps p List.mem_cons_self
      rw [List.foldl_cons, readPieces_of_not hr hn]
      exact ih fun q hq => hps q (List.mem_cons_of_mem p hq)

theorem infix_scheme_append {key : List Char} (hne : key ≠ []) (hspace : ' ' ∉ key) (t : List Char) :
    key <:+: scheme ++ t ↔ key <:+: "WWW-Authenticate: Digest".toList ∨ key <:+: t := by
  have hscheme : scheme = "WWW-Authenticate: Digest".toList ++ [' '] := by decide
  rw [hscheme, List.append_assoc, List.singleton_append]
  exact Infix.infix_append_cons hne hspace

-- Of the header, the two parameters count.
theorem readPieces_header (c : DigestResponse) (g : RtspGlobals) :
    ∃ lead, ¬ realmKey <:+: lead ∧ ¬ nonceKey <:+: lead ∧
      readPieces g c.header = readPieces (readPieces g (lead ++ c.first)) c.second := by
  have hothers := c.others
  simp only [List.mem_append] at hothers
  have hmiddle := fun g => foldl_readPieces_others g c.middle fun p hp => hothers p (Or.inl (Or.inr hp))
  have hback := fun g => foldl_readPieces_others g c.back fun p hp => hothers p (Or.inr hp)
  have hrest : ∀ g, (c.middle ++ c.second :: c.back).foldl readPieces g = readPieces g c.second := by
    intro g
    rw [List.foldl_append, List.foldl_cons, hmiddle, hback]
  cases hf : c.front with
  | nil =>
      refine ⟨scheme, by decide, by decide, ?_⟩
      rw [header, hf, List.nil_append, append_intercalate, readPieces_intercalate, List.foldl_cons, hrest]
  | cons p ps =>
      have hps : ∀ q ∈ p :: ps, ¬ realmKey <:+: q ∧ ¬ nonceKey <:+: q := fun q hq =>
        hothers q (Or.inl (Or.inl (hf ▸ hq)))
      obtain ⟨hr, hn⟩ := hps p List.mem_cons_self
      have hlead : readPieces g (scheme ++ p) = g := by
        apply readPieces_of_not
        · rw [infix_scheme_append (by decide) (by decide)]
          exact not_or.mpr ⟨by decide, hr⟩
        · rw [infix_scheme_append (by decide) (by decide)]
          exact not_or.mpr ⟨by decide, hn⟩
      refine ⟨[], by decide, by decide, ?_⟩
      rw [header, hf, List.cons_append, append_intercalate, readPieces_intercalate, List.foldl_cons, hlead,
        List.foldl_append, foldl_readPieces_others g ps fun q hq => hps q (List.mem_cons_of_mem p hq),
        List.foldl_cons, hrest, List.nil_append]

theorem cuts_realm (hcomma : ',' ∉ c.realm) : ∀ x ∈ c.realm, cuts x = false := by
  intro x hx
  obtain ⟨-, hr, hn⟩ := c.values x (List.mem_append_left _ hx)
  have hne : x ≠ ',' := fun h => hcomma (h ▸ hx)
  simp [cuts, hr, hn, hne]

theorem cuts_nonce (hcomma : ',' ∉ c.nonce) : ∀ x ∈ c.nonce, cuts x = false := by
  intro x hx
  obtain ⟨-, hr, hn⟩ := c.values x (List.mem_append_right _ hx)
  have hne : x ≠ ',' := fun h => hcomma (h ▸ hx)
  simp [cuts, hr, hn, hne]

theorem quote_notMem_nonce (c : DigestResponse) : '"' ∉ c.nonce := fun h =>
  (c.values '"' (List.mem_append_right _ h)).1 rfl

-- What the header sets when no value holds a comma.
theorem readPieces_header_of_end (hr : ',' ∉ c.realm) (hn : ',' ∉ c.nonce)
    (hend : "realm=".toList <:+ c.nonce)
    (g : RtspGlobals) : (readPieces g c.header).NONECE = g.NONECE := by
  obtain ⟨lead, hlr, hln, heq⟩ := readPieces_header c g
  have hnone : ¬ realmKey <:+: [] ∧ ¬ nonceKey <:+: [] := by decide
  rw [heq, first, second]
  cases c.realmFirst with
  | true =>
      have hsecond := (readPieces_nonce (readPieces g (lead ++ c.realmParameter)) c.nonceLeft c.nonceRight
        hnone.1 hnone.2 (cuts_nonce hn) c.quote_notMem_nonce).1 hend
      rw [if_pos rfl, if_pos rfl]
      exact hsecond.trans (by rw [realmParameter, readPieces_realm hlr hln (cuts_realm hr)])
  | false =>
      have hfirst := (readPieces_nonce g c.nonceLeft c.nonceRight hlr hln (cuts_nonce hn)
        c.quote_notMem_nonce).1 hend
      rw [if_neg Bool.false_ne_true, if_neg Bool.false_ne_true, ← List.nil_append c.realmParameter,
        realmParameter, readPieces_realm hnone.1 hnone.2 (cuts_realm hr)]
      exact hfirst

theorem readPieces_header_of_not_end (hr : ',' ∉ c.realm) (hn : ',' ∉ c.nonce)
    (hend : ¬ "realm=".toList <:+ c.nonce) (g : RtspGlobals) :
    (readPieces g c.header).REALM = readValue c.realm c.realmRight ∧
      (readPieces g c.header).NONECE = readValue c.nonce c.nonceRight := by
  obtain ⟨lead, hlr, hln, heq⟩ := readPieces_header c g
  have hnone : ¬ realmKey <:+: [] ∧ ¬ nonceKey <:+: [] := by decide
  have hnonce := fun {lead} (hlr : ¬ realmKey <:+: lead) (hln : ¬ nonceKey <:+: lead) (g : RtspGlobals) =>
    (readPieces_nonce g c.nonceLeft c.nonceRight hlr hln (cuts_nonce hn) c.quote_notMem_nonce).2 hend
  rw [heq, first, second]
  cases c.realmFirst with
  | true =>
      rw [if_pos rfl, if_pos rfl, ← List.nil_append c.nonceParameter, nonceParameter,
        hnonce hnone.1 hnone.2, realmParameter, readPieces_realm hlr hln (cuts_realm hr)]
      exact ⟨rfl, rfl⟩
  | false =>
      rw [if_neg Bool.false_ne_true, if_neg Bool.false_ne_true, ← List.nil_append c.realmParameter,
        realmParameter, readPieces_realm hnone.1 hnone.2 (cuts_realm hr), nonceParameter, hnonce hlr hln]
      exact ⟨rfl, rfl⟩

theorem readPieces_text (c : DigestResponse) (g : RtspGlobals) :
    readPieces g c.text = readPieces (readPieces (readPieces g c.before) c.header) c.after := by
  rw [text, readPieces_after, readPieces_before]

-- The realm that stays when the header and the lines behind it are read.
theorem readPieces_after_REALM_iff (hne : c.realm ≠ []) (u : RtspGlobals)
    (hu : u.REALM = readValue c.realm c.realmRight) :
    (readPieces u c.after).REALM = c.realm ↔
      (c.realmRight = 0 ∧ ¬ realmKey <:+: c.after) ∨ LastRealm c.after c.realm := by
  constructor
  · intro h
    by_cases hafter : realmKey <:+: c.after
    · right
      have hpiece := exists_mem_runs realmKey_ne_nil cuts_realmKey hafter
      obtain ⟨front, lead, x, back, hlead, hback, heq⟩ :=
        exists_last_of_foldl_REALM (g := u) (pieces c.after) hpiece (by
          intro hnil
          exact hne (h.symm.trans hnil))
      refine ⟨front, lead, x, back, hlead, hback, ?_⟩
      rw [← h]
      exact heq
    · left
      rw [readPieces_REALM hafter, hu] at h
      exact ⟨(readValue_eq_iff _ _).mp h, hafter⟩
  · rintro (⟨hright, hafter⟩ | ⟨front, lead, x, back, hlead, hback, heq⟩)
    · rw [readPieces_REALM hafter, hu]
      exact (readValue_eq_iff _ _).mpr hright
    · rw [readPieces, heq]
      exact foldl_REALM_of_last front hlead hback

theorem readPieces_text_iff (hg : g.REALM = [] ∧ g.NONECE = []) (hrealm : c.realm ≠ [])
    (hnonce : c.nonce ≠ []) :
    (readPieces g c.text).REALM = c.realm ∧ (readPieces g c.text).NONECE = c.nonce ↔ c.Extractable := by
  have hfree : CommaFree g := by
    rw [CommaFree, hg.1, hg.2]
    exact ⟨List.not_mem_nil, List.not_mem_nil⟩
  have htext := readPieces_text c g
  have hlast : ∀ u, (readPieces u c.after).NONECE = u.NONECE := fun u => readPieces_NONECE c.one_nonce.2
  have hbefore : (readPieces g c.before).NONECE = [] := (readPieces_NONECE c.one_nonce.1).trans hg.2
  constructor
  · rintro ⟨hr, hn⟩
    obtain ⟨hrc, hnc⟩ := readPieces_commaFree hfree c.text
    rw [hr] at hrc
    rw [hn] at hnc
    have hend : ¬ "realm=".toList <:+ c.nonce := by
      intro hend
      rw [htext, hlast, readPieces_header_of_end hrc hnc hend, hbefore] at hn
      exact hnonce hn.symm
    obtain ⟨hreadr, hreadn⟩ := readPieces_header_of_not_end hrc hnc hend (readPieces g c.before)
    rw [htext, hlast, hreadn, readValue_eq_iff] at hn
    rw [htext, readPieces_after_REALM_iff hrealm _ hreadr] at hr
    exact ⟨hrealm, hnonce, hrc, hnc, hend, hn, hr⟩
  · intro h
    obtain ⟨hreadr, hreadn⟩ :=
      readPieces_header_of_not_end h.realm_comma h.nonce_comma h.nonce_end (readPieces g c.before)
    rw [htext, hlast, hreadn, readValue_eq_iff, readPieces_after_REALM_iff hrealm _ hreadr]
    exact ⟨h.realm_read, h.nonce_right⟩

end Responses

-- The first 401 response gives the realm and the nonce of its header exactly under these conditions.
theorem challenge_extracted_iff (c : DigestResponse) (earlier : List (List Char)) (g : RtspGlobals)
    (hrun : afterResponses earlier = some g) (hfirst : g.isfirst = true)
    (hword : "Unauthorized".toList <:+: c.text) :
    (∃ u, g.parser c.text = .ok u ∧ u.REALM = c.realm ∧ u.NONECE = c.nonce) ↔ c.Extractable := by
  have hbranch : g.parser c.text = g.challenge c.text := by
    unfold RtspGlobals.parser
    rw [(find_isSome_iff _ _).mpr hword, hfirst]
    rfl
  have hclear := noChallenge_of_isfirst hrun hfirst
  have hiff := fun hr hn => readPieces_text_iff (g := { g with isfirst := false, needCertify := true })
    (c := c) hclear hr hn
  rw [hbranch]
  constructor
  · rintro ⟨u, hu, hr, hn⟩
    obtain ⟨rfl, hnonce, hrealm⟩ := (challenge_ok_iff g u c.text).mp hu
    rw [hr] at hrealm
    rw [hn] at hnonce
    exact (hiff hrealm hnonce).mp ⟨hr, hn⟩
  · intro h
    obtain ⟨hr, hn⟩ := (hiff h.realm_ne h.nonce_ne).mpr h
    refine ⟨_, (challenge_ok_iff g _ c.text).mpr ⟨rfl, ?_, ?_⟩, hr, hn⟩
    · rw [hn]
      exact h.nonce_ne
    · rw [hr]
      exact h.realm_ne

-- A response with a second header, for the Basic scheme, that gives the same realm.
def bothSchemes : DigestResponse where
  realm := "IP Camera".toList
  nonce := "83:a0".toList
  realmFirst := false
  realmLeft := 1
  realmRight := 1
  nonceLeft := 0
  nonceRight := 0
  front := ["qop=\"auth\"".toList]
  middle := []
  back := [" stale=\"FALSE\"".toList]
  before := "RTSP/1.0 401 Unauthorized\r\nCSeq: 1\r\n".toList
  after := "\r\nWWW-Authenticate: Basic realm=\"IP Camera\"\r\n\r\n".toList
  values := List.all_iff_forall_prop.mp (by decide)
  others := by decide +kernel
  line_start := Or.inr ⟨"RTSP/1.0 401 Unauthorized\r\nCSeq: 1\r".toList, '\n', by decide, by decide⟩
  line_end := Or.inr ⟨"\nWWW-Authenticate: Basic realm=\"IP Camera\"\r\n\r\n".toList, '\r', by decide, by decide⟩
  one_nonce := by decide +kernel

theorem challenge_extracted_iff_bothSchemes :
    (∃ u, RtspGlobals.parser {} bothSchemes.text = .ok u ∧ u.REALM = "IP Camera".toList ∧
      u.NONECE = "83:a0".toList) := by
  refine (challenge_extracted_iff bothSchemes [] {} rfl rfl (by decide +kernel)).mpr ?_
  refine ⟨by decide, by decide, by decide, by decide, by decide, rfl, Or.inr ?_⟩
  exact ⟨[], "WWW-Authenticate: Basic ".toList, '"', [], by decide, nofun, by decide +kernel⟩

-- A comma stands in the realm.
def commaInRealm : DigestResponse where
  realm := "Gate 2, north".toList
  nonce := "83a0".toList
  realmFirst := true
  realmLeft := 0
  realmRight := 0
  nonceLeft := 1
  nonceRight := 0
  front := []
  middle := []
  back := []
  before := "RTSP/1.0 401 Unauthorized\r\n".toList
  after := "\r\n\r\n".toList
  values := List.all_iff_forall_prop.mp (by decide)
  others := nofun
  line_start := Or.inr ⟨"RTSP/1.0 401 Unauthorized\r".toList, '\n', by decide, by decide⟩
  line_end := Or.inr ⟨"\n\r\n".toList, '\r', by decide, by decide⟩
  one_nonce := by decide

theorem realm_cut_at_comma : "Unauthorized".toList <:+: commaInRealm.text ∧
    (RtspGlobals.parser {} commaInRealm.text).toOption.map (fun u => (u.REALM, u.NONECE)) =
      some ("Gate ".toList, "83a0".toList) ∧ commaInRealm.realm ≠ "Gate ".toList := by
  decide +kernel

end DigestResponse

end Vcu
