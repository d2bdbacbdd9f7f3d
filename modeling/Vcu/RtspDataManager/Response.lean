import Mathlib.Data.List.Basic
import Vcu.Md5.Lemmas

namespace Vcu

-- The bytes of a C++ string, and the colon between its parts.
abbrev Text := List UInt8

def colon : Text := [58]

-- One buffer holds the three texts in turn and is zeroed only before the first.
def calResponse (REALM NONECE cmd user passwd url : Text) : Option Text := do
  let ostr := user ++ colon
  let buffer ← memcpy (List.replicate 1024 0) 0 ostr
  let ostr2 := REALM ++ colon
  let buffer ← memcpy buffer ostr.length ostr2
  let buffer ← memcpy buffer (ostr.length + ostr2.length) passwd
  let md5_1 ← getMd5 buffer (ostr.length + ostr2.length + passwd.length)
  let buffer ← memcpy buffer 0 cmd
  let buffer ← memcpy buffer cmd.length url
  let md5_2 ← getMd5 buffer (cmd.length + url.length)
  let buffer ← memcpy buffer 0 md5_1
  let buffer ← memcpy buffer md5_1.length colon
  let ostr3 := NONECE ++ colon
  let buffer ← memcpy buffer (md5_1.length + 1) ostr3
  let buffer ← memcpy buffer (md5_1.length + 1 + ostr3.length) md5_2
  getMd5 buffer (md5_1.length + 1 + ostr3.length + md5_2.length)

-- The hash of a text that is alone in its buffer.
def md5Hex (s : Text) : Option Text := getMd5 (s ++ [0]) s.length

def userText (user realm passwd : Text) : Text := user ++ colon ++ realm ++ colon ++ passwd

def methodText (method url : Text) : Text := method ++ colon ++ url

def finalText (ha1 nonce ha2 : Text) : Text := ha1 ++ colon ++ nonce ++ colon ++ ha2

def rfcResponse (user realm passwd nonce method url : Text) : Option Text := do
  let ha1 ← md5Hex (userText user realm passwd)
  let ha2 ← md5Hex (methodText method url)
  md5Hex (finalText ha1 nonce ha2)

-- What the buffer shows after `new` was written from its start over the text `old`.
def writtenOver (new old : Text) : Text := new ++ old.drop new.length

section Buffer

variable {t a b : Text}

-- A text and the zeros behind it.
def padded (t : Text) : Text := t ++ List.replicate (1024 - t.length) 0

theorem length_padded (ht : t.length ≤ 1024) : (padded t).length = 1024 := by
  rw [padded, List.length_append, List.length_replicate]
  omega

theorem length_writtenOver (new old : Text) :
    (writtenOver new old).length = max new.length old.length := by
  rw [writtenOver, List.length_append, List.length_drop]
  omega

theorem zero_notMem_writtenOver {new old : Text} (hnew : (0 : UInt8) ∉ new)
    (hold : (0 : UInt8) ∉ old) : (0 : UInt8) ∉ writtenOver new old := by
  rw [writtenOver, List.mem_append, not_or]
  exact ⟨hnew, fun h => hold (List.mem_of_mem_drop h)⟩

-- The older text shows exactly if it is the longer one.
theorem writtenOver_eq_iff (new old : Text) :
    writtenOver new old = new ↔ old.length ≤ new.length := by
  rw [writtenOver, List.append_right_eq_self, List.drop_eq_nil_iff]

-- Further bytes behind a text that was written from the start of the buffer.
theorem memcpy_next {pos : Nat} (ht : t.length ≤ 1024) (hpos : pos = a.length)
    (hfit : (a ++ b).length ≤ 1024) :
    memcpy (padded (writtenOver a t)) pos b = some (padded (writtenOver (a ++ b) t)) := by
  rw [List.length_append] at hfit
  rw [hpos]
  have hlength := length_writtenOver a t
  rw [memcpy_of_le (by rw [length_padded (by omega)]; omega)]
  congr 1
  simp only [padded, writtenOver, List.append_assoc, List.take_left, List.drop_append,
    List.drop_drop, List.drop_replicate, List.length_append, List.length_drop,
    Nat.add_sub_cancel_left, List.drop_eq_nil_of_le (Nat.le_add_right a.length b.length),
    List.nil_append, List.append_cancel_left_eq]
  congr 1
  omega

theorem memcpy_start (ht : t.length ≤ 1024) (hfit : a.length ≤ 1024) :
    memcpy (padded t) 0 a = some (padded (writtenOver a t)) :=
  memcpy_next (a := []) ht rfl hfit

theorem getMd5_padded (ht : t.length ≤ 1023) (hnul : (0 : UInt8) ∉ t) (len : Nat) :
    getMd5 (padded t) len = md5Hex t := by
  have hzeros : List.replicate (1024 - t.length) (0 : UInt8) =
      0 :: List.replicate (1023 - t.length) 0 := by
    rw [← List.replicate_succ]
    congr 1
    omega
  rw [md5Hex, getMd5, getMd5, padded, hzeros, cString_of_notMem hnul, cString_of_notMem hnul]

end Buffer

section Response

variable {user realm passwd nonce method url t : Text}

-- The strings are free of zero bytes and each text fits in the buffer.
structure FitsBuffer (user realm passwd nonce method url : Text) : Prop where
  userNul : (0 : UInt8) ∉ userText user realm passwd
  methodNul : (0 : UInt8) ∉ methodText method url
  nonceNul : (0 : UInt8) ∉ nonce
  userFits : (userText user realm passwd).length ≤ 1023
  methodFits : (methodText method url).length ≤ 1023
  finalFits : nonce.length + 66 ≤ 1023

theorem length_finalText {ha1 ha2 : Text} (h1 : ha1.length = 32) (h2 : ha2.length = 32) :
    (finalText ha1 nonce ha2).length = nonce.length + 66 := by
  simp only [finalText, colon, List.length_append, List.length_cons, List.length_nil, h1, h2]
  omega

theorem zero_notMem_finalText {ha1 ha2 : Text} (h1 : (0 : UInt8) ∉ ha1) (h : (0 : UInt8) ∉ nonce)
    (h2 : (0 : UInt8) ∉ ha2) : (0 : UInt8) ∉ finalText ha1 nonce ha2 := by
  have hcolon : (0 : UInt8) ∉ colon := by decide
  simp only [finalText, List.mem_append, not_or]
  exact ⟨⟨⟨⟨h1, hcolon⟩, h⟩, hcolon⟩, h2⟩

theorem md5Hex_total (s : Text) :
    ∃ digits, md5Hex s = some digits ∧ digits.length = 32 ∧ (0 : UInt8) ∉ digits :=
  getMd5_spec (s ++ [0]) s.length

theorem length_userText (user realm passwd : Text) :
    (userText user realm passwd).length = user.length + 1 + (realm.length + 1) + passwd.length := by
  simp only [userText, colon, List.length_append, List.length_cons, List.length_nil]
  omega

theorem length_methodText (method url : Text) :
    (methodText method url).length = method.length + 1 + url.length := by
  simp only [methodText, colon, List.length_append, List.length_cons, List.length_nil]

-- The three texts as they are written piece by piece.
theorem userText_written (hfits : (userText user realm passwd).length ≤ 1023) :
    ∃ first second, memcpy (List.replicate 1024 0) 0 (user ++ colon) = some first ∧
      memcpy first (user ++ colon).length (realm ++ colon) = some second ∧
      memcpy second ((user ++ colon).length + (realm ++ colon).length) passwd =
        some (padded (userText user realm passwd)) := by
  rw [length_userText] at hfits
  have hcolon : colon.length = 1 := rfl
  refine ⟨padded (writtenOver (user ++ colon) []),
    padded (writtenOver (user ++ colon ++ (realm ++ colon)) []), ?_, ?_, ?_⟩
  · exact memcpy_start (t := []) (Nat.zero_le _) (by rw [List.length_append]; omega)
  · exact memcpy_next (Nat.zero_le _) rfl (by simp only [List.length_append]; omega)
  · rw [memcpy_next (Nat.zero_le _) List.length_append.symm
      (by simp only [List.length_append]; omega)]
    simp only [writtenOver, userText, List.drop_nil, List.append_nil, List.append_assoc]

theorem methodText_written (ht : t.length ≤ 1023) (hfits : (methodText method url).length ≤ 1023) :
    ∃ first, memcpy (padded t) 0 (method ++ colon) = some first ∧
      memcpy first (method ++ colon).length url = some (padded (writtenOver (methodText method url) t)) := by
  rw [length_methodText] at hfits
  have hcolon : colon.length = 1 := rfl
  refine ⟨padded (writtenOver (method ++ colon) t), ?_, ?_⟩
  · exact memcpy_start (by omega) (by rw [List.length_append]; omega)
  · exact memcpy_next (by omega) rfl (by simp only [List.length_append]; omega)

theorem finalText_written {ha1 ha2 : Text} (ht : t.length ≤ 1023) (hfits : nonce.length + 66 ≤ 1023)
    (h1 : ha1.length = 32) (h2 : ha2.length = 32) :
    ∃ first second third, memcpy (padded t) 0 ha1 = some first ∧
      memcpy first ha1.length colon = some second ∧
      memcpy second (ha1.length + 1) (nonce ++ colon) = some third ∧
      memcpy third (ha1.length + 1 + (nonce ++ colon).length) ha2 =
        some (padded (writtenOver (finalText ha1 nonce ha2) t)) := by
  have hcolon : colon.length = 1 := rfl
  refine ⟨padded (writtenOver ha1 t), padded (writtenOver (ha1 ++ colon) t),
    padded (writtenOver (ha1 ++ colon ++ (nonce ++ colon)) t), ?_, ?_, ?_, ?_⟩
  · exact memcpy_start (by omega) (by omega)
  · exact memcpy_next (by omega) rfl (by rw [List.length_append]; omega)
  · exact memcpy_next (by omega) (by rw [List.length_append]; omega)
      (by simp only [List.length_append]; omega)
  · rw [memcpy_next (by omega) (by simp only [List.length_append]; omega)
      (by simp only [List.length_append]; omega)]
    simp only [finalText, List.append_assoc]

-- The second and the third text are hashed with what the texts before them left behind.
theorem calResponse_spec (h : FitsBuffer user realm passwd nonce method url) {stale ha1 ha2 : Text}
    (hstale : stale = writtenOver (methodText method url) (userText user realm passwd))
    (hha1 : md5Hex (userText user realm passwd) = some ha1) (hha2 : md5Hex stale = some ha2) :
    calResponse realm nonce (method ++ colon) user passwd url =
      md5Hex (writtenOver (finalText ha1 nonce ha2) stale) := by
  obtain ⟨digits1, hdigits1, hlength1, hnul1⟩ := md5Hex_total (userText user realm passwd)
  obtain rfl := Option.some.inj (hdigits1.symm.trans hha1)
  obtain ⟨digits2, hdigits2, hlength2, hnul2⟩ := md5Hex_total stale
  obtain rfl := Option.some.inj (hdigits2.symm.trans hha2)
  have huser := h.userFits
  have hmethod := h.methodFits
  have hfinal := h.finalFits
  have hstaleLength : stale.length ≤ 1023 := by
    rw [hstale, length_writtenOver]
    omega
  have hstaleNul : (0 : UInt8) ∉ stale := by
    rw [hstale]
    exact zero_notMem_writtenOver h.methodNul h.userNul
  have hfinalLength : (writtenOver (finalText digits1 nonce digits2) stale).length ≤ 1023 := by
    rw [length_writtenOver, length_finalText hlength1 hlength2]
    omega
  have hfinalNul : (0 : UInt8) ∉ writtenOver (finalText digits1 nonce digits2) stale :=
    zero_notMem_writtenOver (zero_notMem_finalText hnul1 h.nonceNul hnul2) hstaleNul
  obtain ⟨_, _, hwrite1, hwrite2, hwrite3⟩ := userText_written huser
  obtain ⟨_, hwrite4, hwrite5⟩ := methodText_written huser hmethod
  rw [← hstale] at hwrite5
  obtain ⟨_, _, _, hwrite6, hwrite7, hwrite8, hwrite9⟩ :=
    finalText_written hstaleLength hfinal hlength1 hlength2
  simp only [calResponse, hwrite1, hwrite2, hwrite3, hwrite4, hwrite5, hwrite6, hwrite7, hwrite8,
    hwrite9, getMd5_padded huser h.userNul, getMd5_padded hstaleLength hstaleNul,
    getMd5_padded hfinalLength hfinalNul, hha1, hha2, Option.bind_eq_bind, Option.bind_some]

-- Two texts with one hash.
def Collision (s t : Text) : Prop := s ≠ t ∧ md5Hex s = md5Hex t

-- The response is the one of the RFC if each text covers the one before it, and otherwise
-- only by a collision of MD5 on the texts of this very call.
theorem calResponse_eq_rfcResponse (h : FitsBuffer user realm passwd nonce method url) :
    ∃ response, rfcResponse user realm passwd nonce method url = some response ∧
      ((userText user realm passwd).length ≤ (methodText method url).length ∧
          (methodText method url).length ≤ nonce.length + 66 →
        calResponse realm nonce (method ++ colon) user passwd url = some response) ∧
      (calResponse realm nonce (method ++ colon) user passwd url = some response →
        (userText user realm passwd).length ≤ (methodText method url).length ∧
            (methodText method url).length ≤ nonce.length + 66 ∨
          Collision (writtenOver (methodText method url) (userText user realm passwd))
            (methodText method url) ∨
          ∃ ha1 stale ha2, md5Hex (userText user realm passwd) = some ha1 ∧
            md5Hex (writtenOver (methodText method url) (userText user realm passwd)) = some stale ∧
            md5Hex (methodText method url) = some ha2 ∧
            Collision (writtenOver (finalText ha1 nonce stale)
              (writtenOver (methodText method url) (userText user realm passwd)))
              (finalText ha1 nonce ha2)) := by
  obtain ⟨ha1, hha1, hlength1, -⟩ := md5Hex_total (userText user realm passwd)
  obtain ⟨ha2, hha2, hlength2, -⟩ := md5Hex_total (methodText method url)
  obtain ⟨response, hresponse, -, -⟩ := md5Hex_total (finalText ha1 nonce ha2)
  obtain ⟨stale, hstale, hlength3, -⟩ := md5Hex_total
    (writtenOver (methodText method url) (userText user realm passwd))
  have hspec := calResponse_spec h rfl hha1 hstale
  have hsecond := writtenOver_eq_iff (methodText method url) (userText user realm passwd)
  have hthird := writtenOver_eq_iff (finalText ha1 nonce stale)
    (writtenOver (methodText method url) (userText user realm passwd))
  rw [length_writtenOver, length_finalText hlength1 hlength3] at hthird
  refine ⟨response, ?_, ?_, ?_⟩
  · simp only [rfcResponse, hha1, hha2, hresponse, Option.bind_eq_bind, Option.bind_some]
  · rintro ⟨huser, hmethod⟩
    rw [hspec, hthird.mpr (by omega)]
    rw [hsecond.mpr huser, hha2] at hstale
    obtain rfl := Option.some.inj hstale
    exact hresponse
  · intro hcall
    rw [hspec, ← hresponse] at hcall
    by_cases htext : writtenOver (finalText ha1 nonce stale)
        (writtenOver (methodText method url) (userText user realm passwd)) = finalText ha1 nonce ha2
    · have hlengths := congrArg List.length htext
      rw [length_writtenOver, length_writtenOver, length_finalText hlength1 hlength3,
        length_finalText hlength1 hlength2] at hlengths
      rw [hthird.mpr (by omega)] at htext
      obtain rfl := List.append_cancel_left htext
      by_cases huser : (userText user realm passwd).length ≤ (methodText method url).length
      · exact .inl ⟨huser, by omega⟩
      · exact .inr (.inl ⟨mt hsecond.mp huser, hstale.trans hha2.symm⟩)
    · exact .inr (.inr ⟨ha1, stale, ha2, hha1, hstale, hha2, htext, hcall⟩)

end Response

def text (s : String) : Text := s.toList.map fun c => c.toNat.toUInt8

-- Every text covers the one before it.
theorem calResponse_eq_rfcResponse_admin :
    ∃ response,
      rfcResponse (text "u") (text "r") (text "p") (text "0123") (text "PLAY") (text "rtsp://c") =
        some response ∧
      calResponse (text "r") (text "0123") (text "PLAY" ++ colon) (text "u") (text "p")
        (text "rtsp://c") = some response := by
  have hfits : FitsBuffer (text "u") (text "r") (text "p") (text "0123") (text "PLAY") (text "rtsp://c") :=
    ⟨by decide +kernel, by decide +kernel, by decide +kernel, by decide +kernel, by decide +kernel,
      by decide +kernel⟩
  obtain ⟨response, hrfc, hcall, -⟩ := calResponse_eq_rfcResponse hfits
  exact ⟨response, hrfc, hcall (by decide +kernel)⟩

-- A url that is shorter than the user data keeps the end of the password behind it.
theorem calResponse_ne_rfcResponse_short :
    FitsBuffer (text "admin") (text "camera") (text "secret") (text "0123") (text "PLAY") (text "*") ∧
      calResponse (text "camera") (text "0123") (text "PLAY" ++ colon) (text "admin") (text "secret")
        (text "*") ≠
      rfcResponse (text "admin") (text "camera") (text "secret") (text "0123") (text "PLAY")
        (text "*") :=
  ⟨⟨by decide +kernel, by decide +kernel, by decide +kernel, by decide +kernel,
    by decide +kernel, by decide +kernel⟩, by decide +kernel⟩

end Vcu
