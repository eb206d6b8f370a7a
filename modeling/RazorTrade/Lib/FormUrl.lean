import Mathlib.Data.List.Basic
import RazorTrade.Lib.FixedWidth

/-! # Forms (`application/x-www-form-urlencoded`)

A form is a list of pairs.  Names and values are bytes; what is neither a letter, a digit nor one
of `*-._` goes as `%` with two hexadecimal digits, a space as `+`, so that neither `&` nor `=` is
left in them.

  `parse_serialize` :  parsing what was serialized gives the pairs back
  `ofText_text`     :  … also of texts, as text -/

namespace FormUrl

open Numeral

abbrev Bytes : Type := List UInt8

/-! ## Encoding -/

/-- A byte that goes as it is: `*`, `-`, `.`, `_`, a digit or a letter. -/
def plain (b : UInt8) : Bool :=
  b = 42 || b = 45 || b = 46 || b = 95 || (48 ≤ b && b ≤ 57) || (65 ≤ b && b ≤ 90) ||
    (97 ≤ b && b ≤ 122)

/-- The upper-case digit of a number below 16. -/
def hexDigit (n : UInt8) : UInt8 := if n < 10 then 48 + n else 55 + n

def hexValue? (b : UInt8) : Option UInt8 :=
  if 48 ≤ b && b ≤ 57 then some (b - 48)
  else if 65 ≤ b && b ≤ 70 then some (b - 55)
  else if 97 ≤ b && b ≤ 102 then some (b - 87)
  else none

def encodeByte (b : UInt8) : Bytes :=
  if plain b then [b] else if b = 32 then [43] else [37, hexDigit (b / 16), hexDigit (b % 16)]

def encode (bs : Bytes) : Bytes := bs.flatMap encodeByte

/-- The byte that `%` with two digits stands for. -/
def escaped? (b x y : UInt8) : Option UInt8 :=
  if b = 37 then do return 16 * (← hexValue? x) + (← hexValue? y) else none

def unplus (b : UInt8) : UInt8 := if b = 43 then 32 else b

/-- A `%` that no two digits follow stands for itself. -/
def decode : Bytes → Bytes
  | [] => []
  | [b] => [unplus b]
  | [b, x] => [unplus b, unplus x]
  | b :: x :: y :: rest =>
    match escaped? b x y with
    | some c => c :: decode rest
    | none => unplus b :: decode (x :: y :: rest)

/-- `name=value`. -/
def encodePair (p : Bytes × Bytes) : Bytes := encode p.1 ++ 61 :: encode p.2

/-- The pairs, with `&` between them. -/
def serialize (ps : List (Bytes × Bytes)) : Bytes := [38].intercalate (ps.map encodePair)

/-- The name ends at the first `=`. -/
def parsePair (piece : Bytes) : Bytes × Bytes :=
  (decode (piece.takeWhile (· ≠ 61)), decode (piece.dropWhile (· ≠ 61)).tail)

def parse (bs : Bytes) : List (Bytes × Bytes) :=
  ((bs.splitOn 38).filter (· ≠ [])).map parsePair

/-! ## Texts -/

/-- The text of UTF-8 bytes. -/
def textOf? (bs : Bytes) : Option String := String.fromUTF8? ⟨bs.toArray⟩

/-- The serialized form of pairs of texts. -/
def text (ps : List (String × String)) : String :=
  String.ofList ((serialize (ps.map fun p => (textBytes p.1, textBytes p.2))).map
    fun b => Char.ofNat b.toNat)

/-- The pairs of texts of a form. -/
def ofText (s : String) : Option (List (String × String)) :=
  (parse (textBytes s)).mapM fun p => do return (← textOf? p.1, ← textOf? p.2)

/-! ## Lemmas -/

/-! ### One byte -/

/-- A fact about all bytes. -/
theorem forall_byte {p : UInt8 → Prop} (h : ∀ n < 256, p (UInt8.ofNat n)) (b : UInt8) : p b := by
  have hb := h b.toNat b.toNat_lt
  rwa [UInt8.ofNat_toNat] at hb

theorem hexValue_hexDigit (b : UInt8) :
    hexValue? (hexDigit (b / 16)) = some (b / 16) ∧ hexValue? (hexDigit (b % 16)) = some (b % 16) ∧
      16 * (b / 16) + b % 16 = b := by
  refine forall_byte (p := fun b => hexValue? (hexDigit (b / 16)) = some (b / 16) ∧
    hexValue? (hexDigit (b % 16)) = some (b % 16) ∧ 16 * (b / 16) + b % 16 = b) ?_ b
  decide +kernel

/-- What is written for a byte is ASCII, and no separator. -/
theorem encodeByte_safe (b : UInt8) : ∀ c ∈ encodeByte b, c < 128 ∧ c ≠ 38 ∧ c ≠ 61 := by
  refine forall_byte (p := fun b => ∀ c ∈ encodeByte b, c < 128 ∧ c ≠ 38 ∧ c ≠ 61) ?_ b
  decide +kernel

theorem decode_cons {b : UInt8} (h : b ≠ 37) (rest : Bytes) :
    decode (b :: rest) = unplus b :: decode rest := by
  match rest with
  | [] => rfl
  | [x] => rfl
  | x :: y :: rest =>
    have hnone : escaped? b x y = none := if_neg h
    rw [decode, hnone]

theorem plain_ne {b : UInt8} (h : plain b = true) : b ≠ 43 ∧ b ≠ 37 := by
  constructor
  · rintro rfl
    exact absurd h (by decide)
  · rintro rfl
    exact absurd h (by decide)

theorem decode_encodeByte (b : UInt8) (rest : Bytes) :
    decode (encodeByte b ++ rest) = b :: decode rest := by
  unfold encodeByte
  by_cases hplain : plain b = true
  · obtain ⟨hplus, hpercent⟩ := plain_ne hplain
    rw [if_pos hplain, List.singleton_append, decode_cons hpercent, unplus, if_neg hplus]
  · by_cases hspace : b = 32
    · rw [if_neg hplain, if_pos hspace, List.singleton_append, decode_cons (by decide), hspace]
      rfl
    · obtain ⟨hhigh, hlow, hsum⟩ := hexValue_hexDigit b
      have hsome : escaped? 37 (hexDigit (b / 16)) (hexDigit (b % 16)) = some b := by
        simp [escaped?, hhigh, hlow, hsum]
      rw [if_neg hplain, if_neg hspace]
      simp only [List.cons_append, List.nil_append]
      rw [decode, hsome]

/-! ### Bytes and pairs -/

theorem decode_encode_append (bs rest : Bytes) : decode (encode bs ++ rest) = bs ++ decode rest := by
  induction bs with
  | nil => rfl
  | cons b bs ih =>
    have hcons : encode (b :: bs) = encodeByte b ++ encode bs := List.flatMap_cons
    rw [hcons, List.append_assoc, decode_encodeByte, ih, List.cons_append]

theorem decode_encode (bs : Bytes) : decode (encode bs) = bs := by
  have h := decode_encode_append bs []
  rw [List.append_nil] at h
  exact h.trans (List.append_nil bs)

theorem encode_safe {bs : Bytes} : ∀ c ∈ encode bs, c < 128 ∧ c ≠ 38 ∧ c ≠ 61 := by
  intro c hc
  obtain ⟨b, -, hb⟩ := List.mem_flatMap.mp hc
  exact encodeByte_safe b c hb

theorem encodePair_safe {p : Bytes × Bytes} : ∀ c ∈ encodePair p, c < 128 ∧ c ≠ 38 := by
  intro c hc
  unfold encodePair at hc
  rw [List.mem_append, List.mem_cons] at hc
  rcases hc with hc | rfl | hc
  · exact ⟨(encode_safe c hc).1, (encode_safe c hc).2.1⟩
  · decide
  · exact ⟨(encode_safe c hc).1, (encode_safe c hc).2.1⟩

theorem encodePair_ne_nil (p : Bytes × Bytes) : encodePair p ≠ [] := by
  simp [encodePair]

theorem parsePair_encodePair (p : Bytes × Bytes) : parsePair (encodePair p) = p := by
  have hname : ∀ c ∈ encode p.1, decide (c ≠ 61) = true :=
    fun c hc => decide_eq_true (encode_safe c hc).2.2
  unfold parsePair encodePair
  rw [List.takeWhile_append_of_pos hname, List.dropWhile_append_of_pos hname]
  simp [decode_encode]

/-! ### Forms -/

/-- **Round trip.** -/
theorem parse_serialize (ps : List (Bytes × Bytes)) : parse (serialize ps) = ps := by
  unfold parse serialize
  cases ps with
  | nil => rfl
  | cons p ps =>
    have hpieces : ∀ piece ∈ (p :: ps).map encodePair, (38 : UInt8) ∉ piece := by
      intro piece hpiece hmem
      obtain ⟨q, -, rfl⟩ := List.mem_map.mp hpiece
      exact (encodePair_safe _ hmem).2 rfl
    have hfull : ∀ piece ∈ (p :: ps).map encodePair, decide (piece ≠ []) = true := by
      intro piece hpiece
      obtain ⟨q, -, rfl⟩ := List.mem_map.mp hpiece
      exact decide_eq_true (encodePair_ne_nil q)
    rw [List.splitOn_intercalate (38 : UInt8) hpieces (by simp), List.filter_eq_self.mpr hfull,
      List.map_map]
    exact List.map_congr_left (fun p _ => parsePair_encodePair p) |>.trans (List.map_id _)

theorem serialize_cons_cons (p q : Bytes × Bytes) (ps : List (Bytes × Bytes)) :
    serialize (p :: q :: ps) = encodePair p ++ 38 :: serialize (q :: ps) := by
  simp [serialize, List.intercalate]

theorem serialize_ascii (ps : List (Bytes × Bytes)) : ∀ c ∈ serialize ps, c < 128 := by
  induction ps with
  | nil =>
    intro c hc
    cases hc
  | cons p ps ih =>
    cases ps with
    | nil =>
      intro c hc
      have hone : serialize [p] = encodePair p := by simp [serialize, List.intercalate]
      rw [hone] at hc
      exact (encodePair_safe c hc).1
    | cons q ps =>
      intro c hc
      rw [serialize_cons_cons, List.mem_append, List.mem_cons] at hc
      rcases hc with hc | rfl | hc
      · exact (encodePair_safe c hc).1
      · decide
      · exact ih c hc

/-! ### Texts -/

theorem textOf?_textBytes (s : String) : textOf? (textBytes s) = some s := by
  have hbytes : (⟨(textBytes s).toArray⟩ : ByteArray) = s.toByteArray := by
    unfold textBytes
    rw [Array.toArray_toList]
  unfold textOf?
  rw [hbytes, String.fromUTF8?, dif_pos s.isValidUTF8]
  rfl

theorem textBytes_text (ps : List (String × String)) :
    textBytes (text ps) = serialize (ps.map fun p => (textBytes p.1, textBytes p.2)) := by
  have hascii := serialize_ascii (ps.map fun p => (textBytes p.1, textBytes p.2))
  unfold text
  generalize serialize (ps.map fun p => (textBytes p.1, textBytes p.2)) = bs at hascii
  have hchar : ∀ b ∈ bs, (Char.ofNat b.toNat).toNat = b.toNat := by
    intro b hb
    have hlt : b.toNat < 128 := UInt8.lt_iff_toNat_lt.mp (hascii b hb)
    have hvalid : b.toNat.isValidChar := Or.inl (by omega)
    unfold Char.ofNat
    rw [dif_pos hvalid]
    rfl
  rw [textBytes_of_ascii, List.map_map]
  · refine (List.map_congr_left fun b hb => ?_).trans (List.map_id bs)
    simp [hchar b hb]
  · intro c hc
    obtain ⟨b, hb, rfl⟩ := List.mem_map.mp hc
    rw [hchar b hb]
    exact UInt8.lt_iff_toNat_lt.mp (hascii b hb)

/-- **Round trip of texts.** -/
theorem ofText_text (ps : List (String × String)) : ofText (text ps) = some ps := by
  unfold ofText
  rw [textBytes_text, parse_serialize, List.mapM_map]
  induction ps with
  | nil => rfl
  | cons p ps ih =>
    rw [List.mapM_cons]
    simp only [Function.comp_apply, textOf?_textBytes]
    rw [ih]
    rfl

end FormUrl
