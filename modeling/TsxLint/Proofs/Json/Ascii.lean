/-
Module: TsxLint.Proofs.Json.Ascii
Purpose: Indented text is printable ASCII in lines, and goes unchanged through what is done to text.
Main exports: Json.InAscii, Json.inAscii_indented, Json.read_unifyLineEnds_indented,
  Json.stripCodes_of_inAscii
-/
import TsxLint.Proofs.Json.ReadBack
import TsxLint.Terminal.Style
import TsxLint.Text.Blank

namespace TsxLint.Json

/-!
Written values hold no control characters but the line feeds between their parts.  So no escape
code is taken out of them when they are printed, and no line ending is changed when they are read.
-/

/-- A line feed or a printable ASCII character. -/
def IsAscii (c : Char) : Prop := c = '\n' ∨ 0x20 ≤ c.toNat ∧ c.toNat < 0x7f

instance : DecidablePred IsAscii := fun c =>
  inferInstanceAs (Decidable (c = '\n' ∨ 0x20 ≤ c.toNat ∧ c.toNat < 0x7f))

/-- Printable ASCII characters in lines. -/
def InAscii (cs : List Char) : Prop := ∀ c ∈ cs, IsAscii c

theorem all_iff_inAscii {cs : List Char} :
    cs.all (fun c => decide (IsAscii c)) = true ↔ InAscii cs := by
  simp [InAscii]

instance : DecidablePred InAscii := fun _ => decidable_of_iff _ all_iff_inAscii

theorem inAscii_nil : InAscii [] := List.forall_mem_nil _

theorem InAscii.append {cs ds : List Char} (hcs : InAscii cs) (hds : InAscii ds) :
    InAscii (cs ++ ds) := List.forall_mem_append.2 ⟨hcs, hds⟩

theorem InAscii.cons {c : Char} {cs : List Char} (hc : IsAscii c) (hcs : InAscii cs) :
    InAscii (c :: cs) := List.forall_mem_cons.2 ⟨hc, hcs⟩

theorem InAscii.intercalate {sep : List Char} (hsep : InAscii sep) {parts : List (List Char)}
    (h : ∀ part ∈ parts, InAscii part) : InAscii (sep.intercalate parts) := by
  induction parts with
  | nil => exact inAscii_nil
  | cons first others ih =>
    obtain ⟨hfirst, hothers⟩ := List.forall_mem_cons.1 h
    cases others with
    | nil =>
      rw [List.intercalate_singleton]
      exact hfirst
    | cons second others =>
      rw [List.intercalate_cons_cons]
      exact (hfirst.append hsep).append (ih hothers)

/-! ### Numbers -/

theorem IsDigits.inAscii {cs : List Char} (h : IsDigits cs) : InAscii cs := by
  intro c hc
  have hdigit := h c hc
  simp only [Char.isDigit, Bool.and_eq_true, decide_eq_true_eq] at hdigit
  have hlow : 48 ≤ c.toNat := hdigit.1
  have hhigh : c.toNat ≤ 57 := hdigit.2
  exact .inr (by omega)

theorem inAscii_signText (neg : Bool) : InAscii (signText neg) := by
  cases neg
  · exact inAscii_nil
  · exact .cons (by decide) inAscii_nil

theorem inAscii_positional {digits : List Char} (h : IsDigits digits) (point : Int) :
    InAscii (Binary64.positional digits point) := by
  have hzeros (k : Nat) : InAscii (List.replicate k '0') := (isDigits_zeros k).inAscii
  cases point with
  | negSucc p =>
    exact .cons (by decide) (.cons (by decide) ((hzeros (p + 1)).append h.inAscii))
  | ofNat p =>
    cases p with
    | zero => exact .cons (by decide) (.cons (by decide) h.inAscii)
    | succ p =>
      have htake : IsDigits (digits.take (p + 1)) := fun c hc => h c (List.mem_of_mem_take hc)
      have hdrop : IsDigits (digits.drop (p + 1)) := fun c hc => h c (List.mem_of_mem_drop hc)
      refine (htake.inAscii.append (hzeros _)).append (.cons (by decide) ?_)
      split
      · exact hzeros 1
      · exact hdrop.inAscii

theorem inAscii_scientific (style : DecimalStyle) {digits : List Char} (h : IsDigits digits)
    (point : Int) : InAscii (Binary64.scientific style digits point) := by
  have htake : IsDigits (digits.take 1) := fun c hc => h c (List.mem_of_mem_take hc)
  have hdrop : IsDigits (digits.drop 1) := fun c hc => h c (List.mem_of_mem_drop hc)
  have hpoint : InAscii (if (digits.drop 1).isEmpty then [] else '.' :: digits.drop 1) := by
    split
    · exact inAscii_nil
    · exact .cons (by decide) hdrop.inAscii
  have hsign : IsAscii (if point - 1 < 0 then '-' else '+') := by
    split <;> decide
  exact (htake.inAscii.append hpoint).append (.cons (by decide)
    (.cons hsign ((isDigits_zeros _).append (isDigits_toDigits _)).inAscii))

theorem isDigits_digitsAndPoint (d : Decimal) : IsDigits (Binary64.digitsAndPoint d).1 := by
  intro c hc
  refine isDigits_toDigits d.digits c ?_
  exact List.mem_reverse.1 ((List.dropWhile_sublist _).mem (List.mem_reverse.1 hc))

theorem inAscii_render (x : Binary64) : InAscii (x.render .object).toList := by
  have hsign := toList_sign x.negative ▸ inAscii_signText x.negative
  simp only [Binary64.render]
  split
  · decide
  · split
    · rw [String.toList_append]
      exact hsign.append (by decide)
    · split
      · rw [String.toList_append]
        exact hsign.append (by decide)
      · rw [String.toList_append, String.toList_ofList]
        refine hsign.append ?_
        split
        · exact inAscii_positional (isDigits_digitsAndPoint _) _
        · exact inAscii_scientific _ (isDigits_digitsAndPoint _) _

/-! ### Texts -/

theorem isAscii_digitChar {n : Nat} (hn : n < 16) : IsAscii (Nat.digitChar n) := by
  interval_cases n <;> decide

theorem inAscii_escapedUnit {n : Nat} (hn : n < 0x10000) : InAscii (escapedUnit n) := by
  rw [escapedUnit, hexDigits_four n hn]
  exact .cons (by decide) (.cons (by decide) (.cons (isAscii_digitChar (by omega))
    (.cons (isAscii_digitChar (by omega)) (.cons (isAscii_digitChar (by omega))
      (.cons (isAscii_digitChar (by omega)) inAscii_nil)))))

theorem WrittenAs.inAscii {c : Char} {cs : List Char} (h : WrittenAs c cs) : InAscii cs := by
  cases h with
  | plain _ _ hlow hhigh => exact .cons (.inr ⟨hlow, hhigh⟩) inAscii_nil
  | letter hshown _ => exact .cons (by decide) (.cons (.inr hshown) inAscii_nil)
  | unit hn _ => exact inAscii_escapedUnit hn
  | pair hhigh hlow =>
    exact (inAscii_escapedUnit (by omega)).append (inAscii_escapedUnit (by omega))

theorem inAscii_writeText (s : String) : InAscii (writeText s).toList := by
  rw [toList_writeText]
  refine .cons (by decide) (.append ?_ (.cons (by decide) inAscii_nil))
  intro c hc
  obtain ⟨d, -, hd⟩ := List.mem_flatMap.1 hc
  exact (writtenAs_writeChar d).inAscii c hd

/-! ### Values -/

theorem inAscii_lineBreak (depth : Nat) : InAscii (lineBreak depth).toList := by
  rw [lineBreak, String.toList_ofList]
  refine .cons (.inl rfl) fun c hc => ?_
  rw [List.eq_of_mem_replicate hc]
  decide

theorem inAscii_bracketed {opening closing : String} (hopening : InAscii opening.toList)
    (hclosing : InAscii closing.toList) (depth : Nat) {parts : List String}
    (h : ∀ part ∈ parts, InAscii part.toList) :
    InAscii (bracketed opening closing depth parts).toList := by
  by_cases hparts : parts = []
  · rw [hparts, toList_bracketed_nil]
    exact hopening.append hclosing
  · rw [toList_bracketed _ _ _ hparts]
    have hsep : InAscii (',' :: (lineBreak (depth + 1)).toList) :=
      .cons (by decide) (inAscii_lineBreak _)
    have hall : ∀ part ∈ parts.map String.toList, InAscii part := List.forall_mem_map.2 h
    exact hopening.append ((inAscii_lineBreak _).append
      ((hsep.intercalate hall).append ((inAscii_lineBreak _).append hclosing)))

/-- What is written over several lines is printable ASCII. -/
theorem inAscii_indentedAt {v : Value} (h : v.Writable) (depth : Nat) :
    InAscii (indentedAt depth v).toList := by
  induction h generalizing depth with
  | null =>
    have htext : (indentedAt depth .null).toList = "null".toList := rfl
    rw [htext]
    decide
  | bool b =>
    have htext : (indentedAt depth (.bool b)).toList =
        if b then "true".toList else "false".toList := by
      cases b <;> rfl
    rw [htext]
    cases b <;> decide
  | @int n _ =>
    have htext : (indentedAt depth (.int n)).toList = (toString n).toList := rfl
    rw [htext, toList_toString_int]
    exact (inAscii_signText _).append (isDigits_toDigits _).inAscii
  | @float x _ => exact inAscii_render x
  | str s => exact inAscii_writeText s
  | @list vs _ ih =>
    rw [indentedAt, indentedItems_eq]
    exact inAscii_bracketed (by decide) (by decide) depth
      (List.forall_mem_map.2 fun v hv => ih v hv (depth + 1))
  | @object ms _ _ ih =>
    rw [indentedAt, indentedMembers_eq]
    refine inAscii_bracketed (by decide) (by decide) depth
      (List.forall_mem_map.2 fun m hm => ?_)
    simp only [String.toList_append]
    exact ((inAscii_writeText m.1).append (by decide)).append (ih m hm (depth + 1))

theorem inAscii_indented {v : Value} (h : v.Writable) : InAscii (indented v).toList :=
  inAscii_indentedAt h 0

/-! ### What is done to printed and read text -/

theorem unifyLineEnds_of_inAscii {cs : List Char} (h : InAscii cs) :
    Text.unifyLineEnds cs = cs := by
  induction cs with
  | nil => rfl
  | cons c rest ih =>
    obtain ⟨hc, hrest⟩ := List.forall_mem_cons.1 h
    have hreturn : c ≠ '\r' := by
      rintro rfl
      exact absurd hc (by decide)
    unfold Text.unifyLineEnds
    split
    · next heq => cases heq
    · next heq => exact absurd (List.cons.inj heq).1 hreturn
    · next heq => exact absurd (List.cons.inj heq).1 hreturn
    · next heq =>
      obtain ⟨rfl, rfl⟩ := List.cons.inj heq
      rw [ih hrest]

/-- Indented text reads back however line endings are read. -/
theorem read_unifyLineEnds_indented {v : Value} (h : v.Writable) {gap : List Char}
    (hgap : IsGap gap) (hascii : InAscii gap) :
    read (String.ofList (Text.unifyLineEnds ((indented v).toList ++ gap))) = .ok v := by
  rw [unifyLineEnds_of_inAscii ((inAscii_indented h).append hascii)]
  exact read_indented h hgap

theorem stripFrom_of_inAscii {cs : List Char} (h : InAscii cs) :
    Terminal.stripFrom 0 cs = cs := by
  induction cs with
  | nil => rfl
  | cons c rest ih =>
    obtain ⟨hc, hrest⟩ := List.forall_mem_cons.1 h
    have hescape : c ≠ '\x1b' := by
      rintro rfl
      exact absurd hc (by decide)
    have hnone : Terminal.codeLength (c :: rest) = 0 := by
      unfold Terminal.codeLength
      split
      · next heq => exact absurd (List.cons.inj heq).1 hescape
      · rfl
    simp only [Terminal.stripFrom, hnone, ih hrest]

theorem stripCodes_of_inAscii {s : String} (h : InAscii s.toList) : Terminal.stripCodes s = s := by
  rw [Terminal.stripCodes, stripFrom_of_inAscii h, String.ofList_toList]

end TsxLint.Json
