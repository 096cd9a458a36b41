/-
Module: TsxLint.Proofs.Json.ReadBack
Purpose: Indented text reads back to the value that was written.
Main exports: Value.Writable, Json.readsBack_indentedAt, Json.read_indented
-/
import Mathlib.Data.List.Forall2
import TsxLint.Proofs.Json.Keys
import TsxLint.Proofs.Json.Numbers
import TsxLint.Proofs.Json.Texts

namespace TsxLint

/-!
A text can hold a value if no object in it has a key twice, no integer is longer than the reader
takes, and every bit pattern that is no number is the one that text denotes.  Such a value reads
back from its indented text.  The induction is on the value, over every text that may be behind it
and all fuel that its own text gives.
-/

/-- Values that a text can hold. -/
inductive Value.Writable : Value → Prop where
  | null : Writable .null
  | bool (b : Bool) : Writable (.bool b)
  | int {n : Int} (short : (Nat.toDigits 10 n.natAbs).length ≤ JsonError.digitLimit) :
      Writable (.int n)
  | float {x : Binary64} (canonical : x.isNaN = true → x = .nan) : Writable (.float x)
  | str (s : String) : Writable (.str s)
  | list {items : List Value} (each : ∀ v ∈ items, Writable v) : Writable (.list items)
  | object {members : Table Value} (nodup : (Table.keys members).Nodup)
      (each : ∀ member ∈ members, Writable member.2) : Writable (.object members)

theorem Value.Writable.keyed {v : Value} (h : v.Writable) : v.Keyed := by
  induction h with
  | null => exact .null
  | bool b => exact .bool b
  | int _ => exact .int _
  | float _ => exact .float _
  | str s => exact .str s
  | list _ ih => exact .list ih
  | object nodup _ ih => exact .object nodup ih

namespace Json

/-! ### What is read -/

theorem whole_of_numberParts? {cs : List Char} {parts : NumberParts}
    (h : numberParts? cs = some parts) : IsDigits parts.whole ∧ parts.whole ≠ [] := by
  have hpartsAfter (whole after : List Char) : (partsAfter whole after).whole = whole := by
    unfold partsAfter
    dsimp only
    split <;> rfl
  obtain ⟨c, rest, rfl, hdigit⟩ := head_of_numberParts? h
  by_cases hc : c = '0'
  · subst hc
    rw [show numberParts? ('0' :: rest) = _ from some_partsAfter ['0'] rest] at h
    cases h
    rw [hpartsAfter]
    exact ⟨isDigits_zeros 1, List.cons_ne_nil _ _⟩
  · rw [numberParts?_cons hc hdigit] at h
    cases h
    rw [hpartsAfter]
    exact ⟨List.forall_mem_cons.2 ⟨hdigit, fun d hd => List.mem_takeWhile_imp hd⟩,
      List.cons_ne_nil _ _⟩

/-- The digits of an integer are no more than those that it was read from. -/
theorem length_toDigits_digitsValue {cs : List Char} (h : IsDigits cs) (hne : cs ≠ []) :
    (Nat.toDigits 10 (digitsValue cs)).length ≤ cs.length :=
  (Nat.length_toDigits_le_iff (by decide) (List.length_pos_iff.2 hne)).2 (digitsValue_lt h)

theorem writable_of_numberValue {neg : Bool} {cs : List Char} {parts : NumberParts} {v : Value}
    (hparts : numberParts? cs = some parts) (h : numberValue neg parts = .ok v) : v.Writable := by
  obtain ⟨hdigits, hne⟩ := whole_of_numberParts? hparts
  unfold numberValue at h
  split at h
  · split at h
    · cases h
    · next hshort =>
      cases h
      refine .int ((?_ : _ ≤ parts.whole.length).trans (Nat.le_of_not_lt hshort))
      have habs : (if neg then -(digitsValue parts.whole : Int)
          else digitsValue parts.whole).natAbs = digitsValue parts.whole := by
        cases neg
        · exact Int.natAbs_natCast _
        · exact (Int.natAbs_neg _).trans (Int.natAbs_natCast _)
      rw [habs]
      exact length_toDigits_digitsValue hdigits hne
  · cases h
    refine .float fun hnan => ?_
    rw [Binary64.isNaN_ofDecimal] at hnan
    cases hnan

theorem passedUp_writable : PassedUp Value.Writable where
  null := .null
  bool := .bool
  nan := .float fun _ => rfl
  infinity neg := .float fun hnan => by cases neg <;> cases hnan
  number := writable_of_numberValue
  str := .str
  list := .list
  object := .object

/-- A text can hold whatever was read from one. -/
theorem writable_of_read {s : String} {v : Value} (h : read s = .ok v) : v.Writable :=
  holds_of_read passedUp_writable h

/-! ### Heads of texts -/

/-- What a value is read from begins with neither a blank nor a closing bracket nor a mark. -/
theorem head_of_value {fuel : Nat} {cs : List Char} {r : Value × List Char}
    (h : value fuel cs = .ok r) :
    ∃ c rest, cs = c :: rest ∧ isGap c = false ∧ c ≠ ']' ∧ c ≠ '\ufeff' := by
  cases fuel with
  | zero => cases h
  | succ fuel =>
    cases cs with
    | nil => cases h
    | cons c rest =>
      refine ⟨c, rest, rfl, Bool.eq_false_iff.2 fun hgap => ?_, ?_, ?_⟩
      · simp only [isGap, Bool.or_eq_true, beq_iff_eq] at hgap
        rcases hgap with ((rfl | rfl) | rfl) | rfl <;> cases h
      · rintro rfl
        cases h
      · rintro rfl
        cases h

theorem value_of_scalar {fuel : Nat} {cs : List Char} {r : Value × List Char}
    (h : scalar cs = .ok r) : value (fuel + 1) cs = .ok r := by
  cases cs with
  | nil => cases h
  | cons c rest =>
    have hquote : (c == '\x22') = false := beq_eq_false_iff_ne.2 fun hc => by subst hc; cases h
    have hlist : (c == '\x5b') = false := beq_eq_false_iff_ne.2 fun hc => by subst hc; cases h
    have hobject : (c == '\x7b') = false := beq_eq_false_iff_ne.2 fun hc => by subst hc; cases h
    rw [value]
    simp only [hquote, hlist, hobject, Bool.false_eq_true, if_false]
    exact h

theorem skip_cons {c : Char} (hc : isGap c = false) (rest : List Char) :
    skip (c :: rest) = c :: rest := by
  simp [skip, hc]

/-- Blanks, and nothing else. -/
def IsGap (cs : List Char) : Prop := ∀ c ∈ cs, isGap c = true

theorem skip_append {gap : List Char} (hgap : IsGap gap) (rest : List Char) :
    skip (gap ++ rest) = skip rest :=
  List.dropWhile_append_of_pos hgap

theorem isGap_lineBreak (depth : Nat) : IsGap (lineBreak depth).toList := by
  intro c hc
  rw [lineBreak, String.toList_ofList, List.mem_cons] at hc
  rcases hc with rfl | hc
  · rfl
  · rw [List.eq_of_mem_replicate hc]
    rfl

theorem endsNumber_nil : EndsNumber [] where
  digits c hc := by cases hc
  noPoint := by simp
  noMark := by simp

theorem endsNumber_comma (rest : List Char) : EndsNumber (',' :: rest) where
  digits := endsDigits_cons rfl rest
  noPoint := by simp
  noMark := by simp

theorem endsNumber_lineBreak (depth : Nat) (rest : List Char) :
    EndsNumber ((lineBreak depth).toList ++ rest) where
  digits := by
    rw [lineBreak, String.toList_ofList]
    exact endsDigits_cons rfl _
  noPoint := by simp [lineBreak]
  noMark := by simp [lineBreak]

/-! ### Items and members -/

/-- A text from which a value is read, whatever is behind it. -/
def ReadsBack (v : Value) (cs : List Char) : Prop :=
  ∀ (fuel : Nat) (rest : List Char), 2 * cs.length ≤ fuel → EndsNumber rest →
    value fuel (cs ++ rest) = .ok (v, rest)

theorem ReadsBack.head {v : Value} {cs : List Char} (h : ReadsBack v cs) :
    ∃ c rest, cs = c :: rest ∧ isGap c = false ∧ c ≠ ']' ∧ c ≠ '\ufeff' := by
  have hread := h _ [] (Nat.le_refl _) endsNumber_nil
  rw [List.append_nil] at hread
  exact head_of_value hread

theorem ReadsBack.skip {v : Value} {cs : List Char} (h : ReadsBack v cs) (rest : List Char) :
    skip (cs ++ rest) = cs ++ rest := by
  obtain ⟨c, tail, rfl, hc, -, -⟩ := h.head
  exact skip_cons hc _

theorem readsBack_of_scalar {v : Value} {cs : List Char}
    (h : ∀ rest, EndsNumber rest → scalar (cs ++ rest) = .ok (v, rest)) : ReadsBack v cs := by
  intro fuel rest hfuel hrest
  have hread := h rest hrest
  cases cs with
  | nil =>
    have hnone := h [] endsNumber_nil
    cases hnone
  | cons c tail =>
    obtain ⟨fuel, rfl⟩ := Nat.exists_eq_add_of_le' (show 1 ≤ fuel by
      rw [List.length_cons] at hfuel
      omega)
    exact value_of_scalar hread

theorem exists_intercalate_cons {α : Type} (sep first : List α) (others : List (List α)) :
    ∃ tail, sep.intercalate (first :: others) = first ++ tail := by
  cases others with
  | nil => exact ⟨[], by rw [List.intercalate_singleton, List.append_nil]⟩
  | cons second others =>
    rw [List.intercalate_cons_cons, List.append_assoc]
    exact ⟨_, rfl⟩

/-- The items of a list, with blanks behind each comma and before the closing bracket. -/
theorem items_of_readsBack {gap close : List Char} (hgap : IsGap gap) (hclose : IsGap close)
    (hends : ∀ rest, EndsNumber (close ++ rest)) (rest : List Char) {vs : List Value}
    {texts : List (List Char)} (h : List.Forall₂ ReadsBack vs texts) (hne : vs ≠ [])
    {fuel : Nat} (hfuel : 2 * ((',' :: gap).intercalate texts).length + 1 ≤ fuel)
    (done : List Value) :
    items fuel done ((',' :: gap).intercalate texts ++ (close ++ ']' :: rest)) =
      .ok (.list (done.reverse ++ vs), rest) := by
  induction h generalizing fuel done with
  | nil => exact absurd rfl hne
  | @cons v cs vs texts hv hvs ih =>
    obtain ⟨fuel, rfl⟩ := Nat.exists_eq_add_of_le' (Nat.le_of_add_left_le hfuel)
    cases hvs with
    | nil =>
      rw [List.intercalate_singleton] at hfuel ⊢
      have hread := hv fuel _ (show 2 * cs.length ≤ fuel by omega) (hends (']' :: rest))
      rw [items]
      simp only [hread, skip_append hclose, skip_cons (show isGap ']' = false from rfl),
        List.reverse_cons]
    | @cons w ws vs texts hw hvs =>
      rw [List.intercalate_cons_cons] at hfuel ⊢
      simp only [List.length_append, List.length_cons] at hfuel
      obtain ⟨tail, htail⟩ := exists_intercalate_cons (',' :: gap) ws texts
      have hread := hv fuel _ (show 2 * cs.length ≤ fuel by omega) (endsNumber_comma
        (gap ++ ((',' :: gap).intercalate (ws :: texts) ++ (close ++ ']' :: rest))))
      have hskip : skip (gap ++ ((',' :: gap).intercalate (ws :: texts) ++
          (close ++ ']' :: rest))) =
            (',' :: gap).intercalate (ws :: texts) ++ (close ++ ']' :: rest) := by
        rw [skip_append hgap, htail, List.append_assoc, hw.skip]
      have hmore := ih (List.cons_ne_nil _ _) (show _ ≤ fuel by omega) (v :: done)
      rw [List.append_assoc, List.append_assoc, List.cons_append, items]
      simp only [hread, skip_cons (show isGap ',' = false from rfl), hskip, hmore,
        List.reverse_cons, List.append_assoc, List.singleton_append]

/-- A text from which a member of an object is read. -/
def MemberReadsBack (member : String × Value) (cs : List Char) : Prop :=
  ∃ text, cs = (writeText member.1).toList ++ (':' :: ' ' :: text) ∧ ReadsBack member.2 text

theorem toList_writeText (s : String) :
    (writeText s).toList = '\x22' :: (s.toList.flatMap writeChar ++ ['\x22']) := by
  rw [writeText, String.toList_ofList, List.cons_append]

/-- What is done with a member that was read, and the text behind it. -/
def membersAfter (fuel : Nat) (done : Table Value) (left : List Char) : Read Value :=
  match skip left with
  | '\x7d' :: left => .ok (.object done, left)
  | ',' :: left => members fuel done (skip left)
  | left => .error (.at "Expecting ',' delimiter" left)

theorem members_of_readsBack_cons {member : String × Value} {cs : List Char}
    (h : MemberReadsBack member cs) {fuel : Nat} (hfuel : 2 * cs.length ≤ fuel)
    {left : List Char} (hleft : EndsNumber left) (done : Table Value) :
    members (fuel + 1) done (cs ++ left) =
      membersAfter fuel (Table.put done member.1 member.2) left := by
  obtain ⟨text, rfl, hvalue⟩ := h
  have hlength : 2 * text.length ≤ fuel := by
    simp only [List.length_append, List.length_cons] at hfuel
    omega
  have hblank : skip (' ' :: (text ++ left)) = text ++ left :=
    (skip_append (show IsGap [' '] by simp [IsGap, isGap]) _).trans (hvalue.skip left)
  rw [toList_writeText]
  simp only [List.cons_append, List.append_assoc, List.nil_append]
  rw [members]
  simp only [text_writeText, skip_cons (show isGap ':' = false from rfl), hblank,
    hvalue fuel left hlength hleft]
  rfl

theorem MemberReadsBack.skip {member : String × Value} {cs : List Char}
    (h : MemberReadsBack member cs) (rest : List Char) : skip (cs ++ rest) = cs ++ rest := by
  obtain ⟨text, rfl, -⟩ := h
  rw [toList_writeText]
  exact skip_cons rfl _

/-- The members of an object, with blanks behind each comma and before the closing brace. -/
theorem members_of_readsBack {gap close : List Char} (hgap : IsGap gap) (hclose : IsGap close)
    (hends : ∀ rest, EndsNumber (close ++ rest)) (rest : List Char) {ms : Table Value}
    {texts : List (List Char)} (h : List.Forall₂ MemberReadsBack ms texts) (hne : ms ≠ [])
    {fuel : Nat} (hfuel : 2 * ((',' :: gap).intercalate texts).length + 1 ≤ fuel)
    (done : Table Value) (hnodup : (Table.keys (done ++ ms)).Nodup) :
    members fuel done ((',' :: gap).intercalate texts ++ (close ++ '\x7d' :: rest)) =
      .ok (.object (done ++ ms), rest) := by
  induction h generalizing fuel done with
  | nil => exact absurd rfl hne
  | @cons m cs ms texts hm hms ih =>
    obtain ⟨fuel, rfl⟩ := Nat.exists_eq_add_of_le' (Nat.le_of_add_left_le hfuel)
    have hput : Table.put done m.1 m.2 = done ++ [m] := by
      refine Table.put_of_not_mem_keys (fun hmem => ?_) m.2
      rw [Table.keys, List.map_append, List.nodup_append] at hnodup
      exact hnodup.2.2 _ hmem _ (List.mem_map_of_mem List.mem_cons_self) rfl
    cases hms with
    | nil =>
      rw [List.intercalate_singleton] at hfuel ⊢
      rw [members_of_readsBack_cons hm (by omega) (hends _), membersAfter, skip_append hclose,
        skip_cons rfl, hput]
      rfl
    | @cons w ws ms texts hw hms =>
      rw [List.intercalate_cons_cons] at hfuel ⊢
      simp only [List.length_append, List.length_cons] at hfuel
      obtain ⟨tail, htail⟩ := exists_intercalate_cons (',' :: gap) ws texts
      have hskip : Json.skip (gap ++ ((',' :: gap).intercalate (ws :: texts) ++
          (close ++ '\x7d' :: rest))) =
            (',' :: gap).intercalate (ws :: texts) ++ (close ++ '\x7d' :: rest) := by
        rw [skip_append hgap, htail, List.append_assoc, hw.skip]
      have hmore := ih (List.cons_ne_nil _ _) (show _ ≤ fuel by omega) (done ++ [m])
        (by rwa [List.append_assoc])
      rw [List.append_assoc, List.append_assoc, List.cons_append,
        members_of_readsBack_cons hm (by omega) (endsNumber_comma _), membersAfter,
        skip_cons rfl, hput]
      simp only [hskip, hmore, List.append_assoc, List.singleton_append]

/-! ### Lists and objects -/

theorem value_list_of_items (fuel : Nat) {cs body : List Char} (hskip : skip cs = body)
    (hbody : body.head? ≠ some ']') : value (fuel + 1) ('\x5b' :: cs) = items fuel [] body := by
  have hquote : ('\x5b' == '\x22') = false := rfl
  rw [value]
  simp only [hquote, beq_self_eq_true, Bool.false_eq_true, if_false, if_true, hskip]
  split
  · exact absurd rfl hbody
  · rfl

theorem value_object_of_members (fuel : Nat) {cs body : List Char} (hskip : skip cs = body)
    (hbody : body.head? ≠ some '\x7d') :
    value (fuel + 1) ('\x7b' :: cs) = members fuel [] body := by
  have hquote : ('\x7b' == '\x22') = false := rfl
  have hlist : ('\x7b' == '\x5b') = false := rfl
  rw [value]
  simp only [hquote, hlist, beq_self_eq_true, Bool.false_eq_true, if_false, if_true, hskip]
  split
  · exact absurd rfl hbody
  · rfl

/-- A list whose items go on lines of their own. -/
theorem readsBack_list {gap close : List Char} (hgap : IsGap gap) (hclose : IsGap close)
    (hends : ∀ rest, EndsNumber (close ++ rest)) {vs : List Value} {texts : List (List Char)}
    (h : List.Forall₂ ReadsBack vs texts) (hne : vs ≠ []) :
    ReadsBack (.list vs)
      ('\x5b' :: (gap ++ ((',' :: gap).intercalate texts ++ (close ++ [']'])))) := by
  intro fuel rest hfuel hrest
  simp only [List.length_cons, List.length_append] at hfuel
  obtain ⟨fuel, rfl⟩ := Nat.exists_eq_add_of_le' (show 1 ≤ fuel by omega)
  have hitems := items_of_readsBack hgap hclose hends rest h hne (show _ ≤ fuel by omega) []
  have hbody : skip (gap ++ ((',' :: gap).intercalate texts ++ (close ++ ']' :: rest))) =
      (',' :: gap).intercalate texts ++ (close ++ ']' :: rest) ∧
        ((',' :: gap).intercalate texts ++ (close ++ ']' :: rest)).head? ≠ some ']' := by
    cases h with
    | nil => exact absurd rfl hne
    | @cons v cs vs texts hv hvs =>
      obtain ⟨tail, htail⟩ := exists_intercalate_cons (',' :: gap) cs texts
      obtain ⟨c, more, hcs, -, hc, -⟩ := hv.head
      rw [skip_append hgap, htail, List.append_assoc, hv.skip, hcs]
      exact ⟨rfl, fun heq => hc (Option.some.inj heq)⟩
  simp only [List.cons_append, List.append_assoc, List.nil_append]
  rw [value_list_of_items fuel hbody.1 hbody.2, hitems]
  rfl

/-- An object whose members go on lines of their own. -/
theorem readsBack_object {gap close : List Char} (hgap : IsGap gap) (hclose : IsGap close)
    (hends : ∀ rest, EndsNumber (close ++ rest)) {ms : Table Value} {texts : List (List Char)}
    (h : List.Forall₂ MemberReadsBack ms texts) (hne : ms ≠ []) (hnodup : (Table.keys ms).Nodup) :
    ReadsBack (.object ms)
      ('\x7b' :: (gap ++ ((',' :: gap).intercalate texts ++ (close ++ ['\x7d'])))) := by
  intro fuel rest hfuel hrest
  simp only [List.length_cons, List.length_append] at hfuel
  obtain ⟨fuel, rfl⟩ := Nat.exists_eq_add_of_le' (show 1 ≤ fuel by omega)
  have hmembers := members_of_readsBack hgap hclose hends rest h hne (show _ ≤ fuel by omega) []
    hnodup
  have hbody : Json.skip (gap ++ ((',' :: gap).intercalate texts ++ (close ++ '\x7d' :: rest))) =
      (',' :: gap).intercalate texts ++ (close ++ '\x7d' :: rest) ∧
        ((',' :: gap).intercalate texts ++ (close ++ '\x7d' :: rest)).head? ≠ some '\x7d' := by
    cases h with
    | nil => exact absurd rfl hne
    | @cons m cs ms texts hm hms =>
      obtain ⟨tail, htail⟩ := exists_intercalate_cons (',' :: gap) cs texts
      rw [skip_append hgap, htail, List.append_assoc, hm.skip]
      obtain ⟨text, rfl, -⟩ := hm
      rw [toList_writeText]
      exact ⟨rfl, by simp⟩
  simp only [List.cons_append, List.append_assoc, List.nil_append]
  rw [value_object_of_members fuel hbody.1 hbody.2, hmembers]
  rfl

/-! ### Values over several lines -/

theorem indentedItems_eq (depth : Nat) (vs : List Value) :
    indentedItems depth vs = vs.map (indentedAt depth) := by
  induction vs with
  | nil => rfl
  | cons v vs ih => rw [indentedItems, ih, List.map_cons]

theorem indentedMembers_eq (depth : Nat) (ms : List (String × Value)) :
    indentedMembers depth ms =
      ms.map fun m => writeText m.1 ++ ": " ++ indentedAt depth m.2 := by
  induction ms with
  | nil => rfl
  | cons m ms ih => rw [indentedMembers, ih, List.map_cons]

/-- Parts between brackets, as characters. -/
theorem toList_bracketed (opening closing : String) (depth : Nat) {parts : List String}
    (hparts : parts ≠ []) :
    (bracketed opening closing depth parts).toList =
      opening.toList ++ ((lineBreak (depth + 1)).toList ++
        ((',' :: (lineBreak (depth + 1)).toList).intercalate (parts.map String.toList) ++
          ((lineBreak depth).toList ++ closing.toList))) := by
  have hsome : parts.isEmpty = false := List.isEmpty_eq_false_iff.2 hparts
  have hsep : ("," ++ lineBreak (depth + 1)).toList = ',' :: (lineBreak (depth + 1)).toList := by
    rw [String.toList_append]
    rfl
  rw [bracketed, hsome, if_neg Bool.false_ne_true]
  simp only [String.toList_append, String.toList_intercalate, hsep, List.append_assoc]

/-- Without parts the brackets are closed up. -/
theorem toList_bracketed_nil (opening closing : String) (depth : Nat) :
    (bracketed opening closing depth []).toList = opening.toList ++ closing.toList := by
  rw [bracketed, List.isEmpty_nil, if_pos rfl, String.toList_append]

/-- A value with nothing in it reads back whatever is behind it. -/
theorem readsBack_closed {v : Value} {cs : List Char} (hcs : cs ≠ [])
    (h : ∀ fuel rest, value (fuel + 1) (cs ++ rest) = .ok (v, rest)) : ReadsBack v cs := by
  intro fuel rest hfuel _
  have hpos := List.length_pos_iff.2 hcs
  obtain ⟨fuel, rfl⟩ := Nat.exists_eq_add_of_le' (show 1 ≤ fuel by omega)
  exact h fuel rest

theorem readsBack_indentedAt_list (depth : Nat) {vs : List Value}
    (h : ∀ v ∈ vs, ReadsBack v (indentedAt (depth + 1) v).toList) :
    ReadsBack (.list vs) (indentedAt depth (.list vs)).toList := by
  rw [indentedAt, indentedItems_eq]
  by_cases hvs : vs = []
  · rw [hvs, List.map_nil, toList_bracketed_nil]
    exact readsBack_closed (by decide) fun _ _ => rfl
  · rw [toList_bracketed _ _ _ (by simpa using hvs)]
    refine readsBack_list (isGap_lineBreak (depth + 1)) (isGap_lineBreak depth)
      (endsNumber_lineBreak depth) ?_ hvs
    rw [List.map_map, List.forall₂_map_right_iff, List.forall₂_same]
    exact h

theorem readsBack_indentedAt_object (depth : Nat) {ms : Table Value}
    (hnodup : (Table.keys ms).Nodup)
    (h : ∀ m ∈ ms, ReadsBack m.2 (indentedAt (depth + 1) m.2).toList) :
    ReadsBack (.object ms) (indentedAt depth (.object ms)).toList := by
  rw [indentedAt, indentedMembers_eq]
  by_cases hms : ms = []
  · rw [hms, List.map_nil, toList_bracketed_nil]
    exact readsBack_closed (by decide) fun _ _ => rfl
  · rw [toList_bracketed _ _ _ (by simpa using hms)]
    refine readsBack_object (isGap_lineBreak (depth + 1)) (isGap_lineBreak depth)
      (endsNumber_lineBreak depth) ?_ hms hnodup
    rw [List.map_map, List.forall₂_map_right_iff, List.forall₂_same]
    intro m hm
    refine ⟨_, ?_, h m hm⟩
    simp only [Function.comp_apply, String.toList_append, List.append_assoc]
    rfl

/-- A value that a text can hold reads back from its indented text. -/
theorem readsBack_indentedAt {v : Value} (h : v.Writable) (depth : Nat) :
    ReadsBack v (indentedAt depth v).toList := by
  induction h generalizing depth with
  | null =>
    have htext : (indentedAt depth .null).toList = "null".toList := rfl
    rw [htext]
    exact readsBack_closed (by decide) fun _ _ => rfl
  | bool b =>
    have htext : (indentedAt depth (.bool b)).toList =
        if b then "true".toList else "false".toList := by
      cases b <;> rfl
    rw [htext]
    cases b <;> exact readsBack_closed (by decide) fun _ _ => rfl
  | int short => exact readsBack_of_scalar fun rest hrest => scalar_int short hrest
  | float canonical => exact readsBack_of_scalar fun rest hrest => scalar_float canonical hrest
  | str s =>
    have htext : (indentedAt depth (.str s)).toList =
        '\x22' :: (s.toList.flatMap writeChar ++ ['\x22']) := toList_writeText s
    rw [htext]
    refine readsBack_closed (List.cons_ne_nil _ _) fun fuel rest => ?_
    rw [List.cons_append, List.append_assoc, value]
    simp only [beq_self_eq_true, if_true, List.singleton_append, text_writeText]
  | list _ ih => exact readsBack_indentedAt_list depth fun v hv => ih v hv (depth + 1)
  | object nodup _ ih =>
    exact readsBack_indentedAt_object depth nodup fun m hm => ih m hm (depth + 1)

theorem IsGap.endsNumber {gap : List Char} (hgap : IsGap gap) : EndsNumber gap := by
  cases gap with
  | nil => exact endsNumber_nil
  | cons c rest =>
    have hc := hgap c List.mem_cons_self
    simp only [isGap, Bool.or_eq_true, beq_iff_eq] at hc
    rcases hc with ((rfl | rfl) | rfl) | rfl <;>
      exact ⟨endsDigits_cons rfl rest, by simp, by simp⟩

/-- A text from which a value is read, with blanks behind it or without. -/
theorem read_of_readsBack {v : Value} {cs gap : List Char} (h : ReadsBack v cs)
    (hgap : IsGap gap) : read (String.ofList (cs ++ gap)) = .ok v := by
  have hread := h (2 * (cs ++ gap).length + 2) gap
    (by rw [List.length_append]; omega) hgap.endsNumber
  have hskip := h.skip gap
  have hgone : skip gap = [] := List.dropWhile_eq_nil_iff.2 hgap
  obtain ⟨c, rest, hcs, -, -, hmark⟩ := h.head
  have hhead : (cs ++ gap).head? ≠ some '\ufeff' := by
    rw [hcs]
    exact fun heq => hmark (Option.some.inj heq)
  unfold read
  rw [String.toList_ofList]
  generalize cs ++ gap = text at hread hskip hhead ⊢
  dsimp only
  split
  · exact absurd rfl hhead
  · simp only [hskip, hread, hgone]

/-- What is written over several lines is read as the value that was written. -/
theorem read_indented {v : Value} (h : v.Writable) {gap : List Char} (hgap : IsGap gap) :
    read (String.ofList ((indented v).toList ++ gap)) = .ok v :=
  read_of_readsBack (readsBack_indentedAt h 0) hgap

end Json

end TsxLint
