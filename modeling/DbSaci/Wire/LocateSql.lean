import DbSaci.Library.Utf8
import DbSaci.Wire.ExecuteRequest

set_option relaxedAutoImplicit false
set_option autoImplicit false

/-!
# Locating a statement in an Execute request

A thin client sends the length of its statement, some option bytes, and the statement, with its
length in front of it or not. Where it starts is found by its content: behind a byte that may stand
in front of a statement, so many bytes have to be the text of one.

## Main definitions

* `IsStatement` — a text that is taken for a statement.
* `ExecuteTail` — what a client sends.
* `ExecuteTail.Ambiguous` — the bytes in front of the statement go on as a statement in it.

## Main results

* `ExecuteTail.located_iff` — which statements are found where they start.
-/

namespace DbSaci.Wire

open Text

/-! ### Statements -/

/-- A printable character. Tabs and line ends are printable. -/
def IsPrintable (c : Char) : Prop :=
  c.toNat = 9 ∨ c.toNat = 10 ∨ c.toNat = 13 ∨ 0x20 ≤ c.toNat ∧ c.toNat < 0x7f ∨ 0x80 ≤ c.toNat

/-- A text that is taken for a statement: printable behind its white space, where it starts with a
letter or a parenthesis. -/
def IsStatement (s : List Char) : Prop :=
  ∃ c r, trimStart s = c :: r ∧ (c.isAlpha = true ∨ c = '(') ∧ ∀ d ∈ c :: r, IsPrintable d

lemma isTextByte_iff (b : UInt8) : isTextByte b = true ↔
    b.toNat = 9 ∨ b.toNat = 10 ∨ b.toNat = 13 ∨ 0x20 ≤ b.toNat ∧ b.toNat < 0x7f ∨
      0x80 ≤ b.toNat := by
  simp only [isTextByte, Bool.or_eq_true, beq_iff_eq, Bool.and_eq_true, decide_eq_true_eq,
    UInt8.le_iff_toNat_le, UInt8.lt_iff_toNat_lt, ← UInt8.toNat_inj, or_assoc]
  rfl

/-- The bytes of a character are printable if and only if the character is. -/
lemma all_isTextByte_iff (s : List Char) :
    (utf8Encode s).all isTextByte = true ↔ ∀ c ∈ s, IsPrintable c := by
  induction s with
  | nil => exact iff_of_true rfl nofun
  | cons c s ih =>
    rw [utf8Encode_cons, List.all_append, Bool.and_eq_true, ih, List.forall_mem_cons]
    refine and_congr_left fun _ => ?_
    by_cases hc : c.toNat < 0x80
    · have hbyte : (UInt8.ofNat c.toNat).toNat = c.toNat :=
        UInt8.toNat_ofNat_of_lt' (hc.trans (by decide))
      rw [utf8EncodeChar_ascii hc, List.all_cons, List.all_nil, Bool.and_true, isTextByte_iff,
        hbyte]
      rfl
    · have hge := Nat.le_of_not_lt hc
      refine iff_of_true (List.all_eq_true.2 fun b hb => ?_) ?_
      · rw [isTextByte_iff]
        have hbyte := le_of_mem_utf8EncodeChar hge b hb
        omega
      · unfold IsPrintable
        omega

/-- A letter or a parenthesis, as the search compares characters. -/
lemma starts_iff (c : Char) :
    (('a' ≤ c && c ≤ 'z') || ('A' ≤ c && c ≤ 'Z') || c == '(') = true ↔
      c.isAlpha = true ∨ c = '(' := by
  have halpha : c.isAlpha = true ↔ ('a' ≤ c ∧ c ≤ 'z') ∨ 'A' ≤ c ∧ c ≤ 'Z' := by
    delta Char.isAlpha Char.isUpper Char.isLower
    rw [Bool.or_eq_true, or_comm]
    simp only [Bool.and_eq_true, decide_eq_true_eq]
    rfl
  rw [Bool.or_eq_true, Bool.or_eq_true, Bool.and_eq_true, Bool.and_eq_true, decide_eq_true_eq,
    decide_eq_true_eq, decide_eq_true_eq, decide_eq_true_eq, beq_iff_eq, halpha]

/-- **Bytes look like a statement if and only if they are the text of one.** -/
lemma looksLikeSql_iff (window : List UInt8) :
    looksLikeSql window = true ↔ ∃ s, window = utf8Encode s ∧ IsStatement s := by
  have hdecode : utf8Decode window = (String.fromUTF8? ⟨window.toArray⟩).map String.toList := rfl
  unfold looksLikeSql IsStatement
  cases htext : String.fromUTF8? ⟨window.toArray⟩ with
  | none =>
    refine iff_of_false Bool.false_ne_true ?_
    rintro ⟨s, rfl, -⟩
    rw [utf8Decode_encode, htext] at hdecode
    cases hdecode
  | some text =>
    rw [htext, Option.map_some] at hdecode
    have hunique : ∀ s, window = utf8Encode s ↔ s = text.toList := by
      intro s
      rw [← utf8Decode_eq_some_iff, hdecode, Option.some.injEq]
      exact eq_comm
    simp only [hunique, exists_eq_left]
    cases htrim : trimStart text.toList with
    | nil => exact iff_of_false Bool.false_ne_true (by rintro ⟨c, r, h, -⟩; cases h)
    | cons c r =>
      dsimp only
      rw [Bool.and_eq_true, starts_iff, toList_toUTF8, all_isTextByte_iff]
      constructor
      · rintro ⟨hstart, hprint⟩
        exact ⟨c, r, rfl, hstart, hprint⟩
      · rintro ⟨c', r', hcons, hstart, hprint⟩
        obtain ⟨rfl, rfl⟩ := List.cons.inj hcons
        exact ⟨hstart, hprint⟩

/-! ### Requests -/

/-- Printable text, in which there may be any white space. -/
def IsPrintableText (bytes : List UInt8) : Prop :=
  ∃ s, bytes = utf8Encode s ∧ ∀ c ∈ s, IsPrintable c ∨ isSpace c = true

/-- What a client sends behind the length of its statement. -/
structure ExecuteTail where
  /-- The option bytes. -/
  pre : List UInt8
  /-- The length stands in front of the statement once more. -/
  prefixed : Bool
  sql : List Char
  /-- The bytes behind the statement. -/
  rest : List UInt8
  /-- No text of the length of the statement stands in the option bytes. -/
  pre_no_text : ∀ window, window <:+: pre → window.length = (utf8Encode sql).length →
    ¬ IsPrintableText window

namespace ExecuteTail

variable (f : ExecuteTail)

/-- The length of the statement, which the client has sent before. -/
def sqlLen : ℕ := (utf8Encode f.sql).length

/-- The bytes in front of the statement. -/
def front : List UInt8 := if f.prefixed then f.pre ++ [UInt8.ofNat f.sqlLen] else f.pre

/-- All the bytes. -/
def tail : List UInt8 := f.front ++ utf8Encode f.sql ++ f.rest

/-- Some bytes are at a boundary if they are none, or if the last one may stand in front of a
statement. -/
def AtBoundary (head : List UInt8) : Prop :=
  ∀ b ∈ head.getLast?, isBoundary (UInt8.ofNat f.sqlLen) b = true

/-- The bytes in front of the statement end, behind a boundary, with a text with which a part of the
statement is a statement of the same length. -/
def Ambiguous : Prop :=
  ∃ head text part cut, text ≠ [] ∧ f.front = head ++ utf8Encode text ∧ f.AtBoundary head ∧
    f.sql = part ++ cut ∧ (utf8Encode cut).length = (utf8Encode text).length ∧
    IsStatement (text ++ part)

/-- A statement of this length may start at this offset. -/
def startsAt (tail : List UInt8) (sqlLen i : ℕ) : Bool :=
  i == 0 || isBoundary (UInt8.ofNat sqlLen) ((tail[i - 1]?).getD 0)

/-- A statement may start where some bytes end if and only if they are at a boundary. -/
lemma startsAt_append (head behind : List UInt8) :
    startsAt (head ++ behind) f.sqlLen head.length = true ↔ f.AtBoundary head := by
  unfold startsAt AtBoundary
  rcases List.eq_nil_or_concat head with rfl | ⟨init, b, rfl⟩
  · exact iff_of_true rfl nofun
  · have hget : (init ++ [b] ++ behind)[init.length]? = some b := by
      rw [List.append_assoc, List.getElem?_append_right (Nat.le_refl _), Nat.sub_self]
      rfl
    have hpos : ((init ++ [b]).length == 0) = false := by
      rw [List.length_append]
      rfl
    rw [List.concat_eq_append, hpos, Bool.false_or, List.length_append, List.length_singleton,
      Nat.add_sub_cancel, hget, List.getLast?_concat]
    exact ⟨fun h c hc => Option.some.inj hc ▸ h, fun h => h b rfl⟩

/-- A statement may start behind its length. -/
lemma atBoundary_front_iff :
    f.AtBoundary f.front ↔ f.prefixed = true ∨ f.AtBoundary f.pre := by
  unfold front
  cases f.prefixed with
  | true =>
    refine iff_of_true ?_ (.inl rfl)
    intro b hb
    rw [if_pos rfl, List.getLast?_concat] at hb
    obtain rfl := Option.some.inj hb
    rw [isBoundary, beq_self_eq_true, Bool.or_true]
  | false =>
    rw [if_neg Bool.false_ne_true]
    exact ⟨.inr, fun h => h.resolve_left Bool.false_ne_true⟩

/-- A window that starts in front of the statement and reaches it. -/
lemma window_eq {head t : List UInt8} (hfront : f.front = head ++ t) (hle : t.length ≤ f.sqlLen) :
    (f.tail.drop head.length).take f.sqlLen =
      t ++ (utf8Encode f.sql).take (f.sqlLen - t.length) := by
  have hlen : f.sqlLen - t.length ≤ (utf8Encode f.sql).length := Nat.sub_le _ _
  rw [tail, hfront, List.append_assoc, List.append_assoc, List.drop_left, List.take_append,
    List.take_of_length_le hle, List.take_append_of_le_length hlen]

/-- A statement is printable text. -/
lemma isPrintableText_of_isStatement {s : List Char} (h : IsStatement s) :
    IsPrintableText (utf8Encode s) := by
  obtain ⟨c, r, htrim, -, hprint⟩ := h
  refine ⟨s, rfl, fun d hd => ?_⟩
  rw [← List.takeWhile_append_dropWhile (p := isSpace) (l := s), List.mem_append] at hd
  rcases hd with hspace | hrest
  · exact .inr (List.mem_takeWhile_imp hspace)
  · rw [← trimStart, htrim] at hrest
    exact .inl (hprint d hrest)

/-- A window that does not reach the statement is no statement. -/
lemma not_looksLikeSql_of_lt {head t : List UInt8} (hfront : f.front = head ++ t)
    (hlt : f.sqlLen < t.length) :
    ¬ looksLikeSql ((f.tail.drop head.length).take f.sqlLen) = true := by
  intro h
  have hwindow : (f.tail.drop head.length).take f.sqlLen = t.take f.sqlLen := by
    rw [tail, hfront, List.append_assoc, List.append_assoc, List.drop_left,
      List.take_append_of_le_length hlt.le]
  have hinside : t.take f.sqlLen <:+: f.pre := by
    unfold front at hfront
    cases hprefixed : f.prefixed with
    | true =>
      rw [hprefixed, if_pos rfl] at hfront
      -- the length is the last byte, which the window does not have
      obtain ⟨t', b, rfl⟩ : ∃ t' b, t = t' ++ [b] := by
        rcases List.eq_nil_or_concat t with rfl | ⟨t', b, rfl⟩
        · exact absurd hlt (Nat.not_lt_zero _)
        · exact ⟨t', b, List.concat_eq_append⟩
      rw [← List.append_assoc] at hfront
      have hpre := (List.append_inj' hfront rfl).1
      rw [List.length_append, List.length_singleton] at hlt
      rw [List.take_append_of_le_length (by omega), hpre]
      exact (List.take_prefix _ _).isInfix.trans (List.suffix_append _ _).isInfix
    | false =>
      rw [hprefixed, if_neg Bool.false_ne_true] at hfront
      rw [hfront]
      exact (List.take_prefix _ _).isInfix.trans (List.suffix_append _ _).isInfix
  rw [hwindow, looksLikeSql_iff] at h
  obtain ⟨s, hs, hstatement⟩ := h
  refine f.pre_no_text _ hinside (List.length_take_of_le hlt.le) ?_
  rw [hs]
  exact isPrintableText_of_isStatement hstatement

/-- **Which windows in front of the statement are taken for one**: those that start with a text with
which a part of the statement is a statement. -/
lemma looksLikeSql_window_iff {head t : List UInt8} (hfront : f.front = head ++ t) :
    looksLikeSql ((f.tail.drop head.length).take f.sqlLen) = true ↔
      ∃ text part cut, t = utf8Encode text ∧ f.sql = part ++ cut ∧
        (utf8Encode cut).length = (utf8Encode text).length ∧ IsStatement (text ++ part) := by
  rcases Nat.lt_or_ge f.sqlLen t.length with hlt | hle
  · refine iff_of_false (f.not_looksLikeSql_of_lt hfront hlt) ?_
    rintro ⟨text, part, cut, rfl, hsql, hlen, -⟩
    rw [sqlLen, hsql, utf8Encode_append, List.length_append] at hlt
    omega
  · rw [f.window_eq hfront hle, looksLikeSql_iff]
    constructor
    · rintro ⟨s, hs, hstatement⟩
      have hpart : (utf8Encode f.sql).take (f.sqlLen - t.length) <+: utf8Encode f.sql :=
        List.take_prefix _ _
      have hcount := List.length_take_of_le (l := utf8Encode f.sql) (Nat.sub_le f.sqlLen t.length)
      generalize (utf8Encode f.sql).take (f.sqlLen - t.length) = u at hs hpart hcount
      -- the statement starts with the first byte of a character, before which the text can be cut
      obtain ⟨text, part, rfl, htext, hu⟩ :
          ∃ text part, s = text ++ part ∧ utf8Encode text = t ∧ utf8Encode part = u := by
        cases u with
        | nil => exact ⟨s, [], (List.append_nil s).symm, by rw [← hs, List.append_nil], rfl⟩
        | cons b u =>
          obtain ⟨behind, hsql⟩ := hpart
          exact utf8Encode_split hs.symm (isUTF8FirstByte_of_utf8Encode hsql.symm)
      rw [← hu] at hpart hcount
      obtain ⟨cut, hcut⟩ := prefix_of_utf8Encode_prefix hpart
      refine ⟨text, part, cut, htext.symm, hcut.symm, ?_, hstatement⟩
      have hlen : f.sqlLen = (utf8Encode part).length + (utf8Encode cut).length := by
        rw [sqlLen, ← hcut, utf8Encode_append, List.length_append]
      rw [htext]
      omega
    · rintro ⟨text, part, cut, rfl, hsql, hlen, hstatement⟩
      refine ⟨text ++ part, ?_, hstatement⟩
      have hcount : f.sqlLen - (utf8Encode text).length = (utf8Encode part).length := by
        rw [sqlLen, hsql, utf8Encode_append, List.length_append]
        omega
      rw [hcount, hsql, utf8Encode_append, List.take_left, utf8Encode_append]

/-- An earlier window is taken for a statement if and only if the bytes in front are ambiguous. -/
lemma exists_earlier_iff :
    (∃ j < f.front.length, (startsAt f.tail f.sqlLen j &&
      looksLikeSql ((f.tail.drop j).take f.sqlLen)) = true) ↔ f.Ambiguous := by
  have hboundary : ∀ {head t}, f.front = head ++ t →
      (startsAt f.tail f.sqlLen head.length = true ↔ f.AtBoundary head) := by
    intro head t hfront
    rw [tail, hfront, List.append_assoc, List.append_assoc]
    exact f.startsAt_append head _
  constructor
  · rintro ⟨j, hj, h⟩
    have hfront : f.front = f.front.take j ++ f.front.drop j := (List.take_append_drop j _).symm
    have hlen : (f.front.take j).length = j := List.length_take_of_le hj.le
    have hdrop : (f.front.drop j).length ≠ 0 := by
      rw [List.length_drop]
      omega
    rw [Bool.and_eq_true, ← hlen, hboundary hfront, f.looksLikeSql_window_iff hfront] at h
    obtain ⟨hat, text, part, cut, htext, hsql, hcut, hstatement⟩ := h
    rw [htext] at hfront hdrop
    refine ⟨_, text, part, cut, ?_, hfront, hat, hsql, hcut, hstatement⟩
    rintro rfl
    exact hdrop rfl
  · rintro ⟨head, text, part, cut, htext, hfront, hat, hsql, hcut, hstatement⟩
    refine ⟨head.length, ?_, ?_⟩
    · have hpos := List.length_pos_iff.2 htext
      have hbytes := length_le_length_utf8Encode text
      rw [hfront, List.length_append]
      omega
    · rw [Bool.and_eq_true, hboundary hfront, f.looksLikeSql_window_iff hfront]
      exact ⟨hat, text, part, cut, rfl, hsql, hcut, hstatement⟩

/-- **A statement is found where it starts if and only if** it is taken for one, it stands behind a
boundary, and the bytes in front of it are not ambiguous. -/
theorem located_iff (f : ExecuteTail) :
    locateSqlBody f.tail f.sqlLen = some f.front.length ↔
      IsStatement f.sql ∧ (f.prefixed = true ∨ f.AtBoundary f.pre) ∧ ¬ f.Ambiguous := by
  have hlength : f.tail.length = f.front.length + f.sqlLen + f.rest.length := by
    rw [tail, List.length_append, List.length_append, sqlLen]
  have hstatement : looksLikeSql ((f.tail.drop f.front.length).take f.sqlLen) = true ↔
      IsStatement f.sql := by
    rw [tail, List.append_assoc, List.drop_left, sqlLen, List.take_left, looksLikeSql_iff]
    constructor
    · rintro ⟨s, hs, h⟩
      have hsame := congrArg utf8Decode hs
      rw [utf8Decode_encode, utf8Decode_encode, Option.some.injEq] at hsame
      rwa [hsame]
    · exact fun h => ⟨f.sql, rfl, h⟩
  have hboundary : startsAt f.tail f.sqlLen f.front.length = true ↔
      f.prefixed = true ∨ f.AtBoundary f.pre := by
    rw [tail, List.append_assoc, startsAt_append, atBoundary_front_iff]
  have hsearch : locateSqlBody f.tail f.sqlLen =
      if f.sqlLen = 0 ∨ f.tail.length < f.sqlLen then none
      else (List.range (f.tail.length - f.sqlLen + 1)).find? fun i =>
        startsAt f.tail f.sqlLen i && looksLikeSql ((f.tail.drop i).take f.sqlLen) := rfl
  rw [hsearch]
  by_cases hzero : f.sqlLen = 0
  · rw [if_pos (.inl hzero)]
    refine iff_of_false nofun fun h => ?_
    have hnil : f.sql = [] := by
      have hle := length_le_length_utf8Encode f.sql
      rw [← sqlLen, hzero, Nat.le_zero] at hle
      exact List.eq_nil_of_length_eq_zero hle
    obtain ⟨c, r, htrim, -⟩ := h.1
    rw [hnil] at htrim
    cases htrim
  · rw [if_neg (by omega), List.find?_range_eq_some, Bool.and_eq_true, hboundary, hstatement,
      List.mem_range, ← f.exists_earlier_iff]
    constructor
    · rintro ⟨⟨hat, hsql⟩, -, hnone⟩
      refine ⟨hsql, hat, ?_⟩
      rintro ⟨j, hj, h⟩
      have hnot := hnone j hj
      rw [h] at hnot
      exact Bool.false_ne_true hnot
    · rintro ⟨hsql, hat, hnone⟩
      refine ⟨⟨hat, hsql⟩, by omega, fun j hj => ?_⟩
      rw [Bool.not_eq_true', ← Bool.not_eq_true]
      exact fun h => hnone ⟨j, hj, h⟩

end ExecuteTail

/-- A zero byte, and a statement of ten bytes behind its length, which is a line end. -/
def tenBytes : ExecuteTail where
  pre := [0]
  prefixed := true
  sql := "SELECT 1+1".toList
  rest := []
  pre_no_text := by
    intro window hinfix hlen
    have hle := hinfix.length_le
    rw [hlen] at hle
    exact absurd hle (by decide)

/-- It is found at its length. -/
theorem tenBytes_not_located :
    ¬ ∀ f : ExecuteTail, locateSqlBody f.tail f.sqlLen = some f.front.length := by
  intro h
  have hten := h tenBytes
  revert hten
  decide +kernel

end DbSaci.Wire
