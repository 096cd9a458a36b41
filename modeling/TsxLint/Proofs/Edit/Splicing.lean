/-
Module: TsxLint.Proofs.Edit.Splicing
Purpose: Applying edits in one pass does what replacing one range after the other does.
Main exports: Edit.replaceIn, Edit.pieces, Edit.joined_eq_ok, Edit.apply_eq_replacing_one_by_one
-/
import TsxLint.Proofs.Edit.Overlap
import TsxLint.Edit.Splice

namespace TsxLint.Edit

/-!
`Edit.apply` walks once over the text with a cursor and checks only neighbouring
edits.  Said without a cursor, applying edits is replacing the range of one edit
after the other, from the end of the text to its beginning, so that no replacement
shifts a range that is still to come.  Both agree, and neither depends on the order
in which the edits are given.
-/

/-- The bytes of a text. -/
def bytesOf (text : String) : List UInt8 := text.toUTF8.data.toList

/-- The bytes with the range of one edit replaced. -/
def replaceIn (bytes : List UInt8) (e : Edit) : List UInt8 :=
  bytes.take e.start ++ bytesOf e.text ++ bytes.drop e.stop

/-- Two edits at different positions of a list overlap. -/
def OverlapSomewhere (edits : List Edit) : Prop :=
  ∃ (i j : Nat) (a b : Edit), i ≠ j ∧ edits[i]? = some a ∧ edits[j]? = some b ∧ a.overlaps b = true

/-- An edit ends behind the last of so many bytes. -/
def ReachOutside (size : Nat) (edits : List Edit) : Prop := ∃ e ∈ edits, size < e.stop

/-- Whether no edit covers an offset. -/
def isOutside (edits : List Edit) (offset : Nat) : Bool :=
  edits.all fun e => !(decide (e.start ≤ offset) && decide (offset < e.stop))

/-- The bytes outside all edits, in order. -/
def keptBytes (bytes : List UInt8) (edits : List Edit) : List UInt8 :=
  (bytes.zipIdx.filter fun p => isOutside edits p.2).map (·.1)

/-- The text that bytes encode. -/
def decoded (bytes : List UInt8) : Outcome String :=
  match Text.decode ⟨bytes.toArray⟩ with
  | .ok s => .ok s
  | .error e => .error (.malformedText e)

theorem length_bytesOf (text : String) : (bytesOf text).length = text.utf8ByteSize := by
  rw [bytesOf, Array.length_toList, ByteArray.size_data, String.toUTF8_eq_toByteArray,
    String.size_toByteArray]

theorem decoded_bytesOf (text : String) : decoded (bytesOf text) = .ok text := by
  have h : (⟨(bytesOf text).toArray⟩ : ByteArray) = text.toUTF8 := by simp [bytesOf]
  rw [decoded, h, Text.decode_toUTF8]

theorem apart_iff_not_overlapSomewhere (edits : List Edit) :
    Apart edits ↔ ¬ OverlapSomewhere edits := by
  constructor
  · rintro h ⟨i, j, a, b, hne, hi, hj, hab⟩
    obtain ⟨hi', rfl⟩ := List.getElem?_eq_some_iff.1 hi
    obtain ⟨hj', rfl⟩ := List.getElem?_eq_some_iff.1 hj
    have apart := List.pairwise_iff_getElem.1 h
    rcases Nat.lt_or_gt_of_ne hne with hlt | hlt
    · rw [apart i j hi' hj' hlt] at hab
      cases hab
    · rw [overlaps_comm, apart j i hj' hi' hlt] at hab
      cases hab
  · intro h
    apply List.pairwise_iff_getElem.2
    intro i j hi hj hij
    by_contra hne
    exact h ⟨i, j, edits[i], edits[j], Nat.ne_of_lt hij, List.getElem?_eq_getElem hi,
      List.getElem?_eq_getElem hj, by simpa using hne⟩

/-! ### One pass with a cursor -/

/-- What lies between edits in order, from a cursor on, joined with their texts. -/
def pieces (bytes : List UInt8) (cursor : Nat) : List Edit → List UInt8
  | [] => bytes.drop cursor
  | e :: rest =>
    (bytes.take e.start).drop cursor ++ bytesOf e.text ++ pieces bytes e.stop rest

theorem joined_eq_ok {bytes : List UInt8} {edits : List Edit} (cursor : Nat)
    (inside : ∀ e ∈ edits, e.stop ≤ bytes.length) :
    joined bytes cursor edits = .ok (pieces bytes cursor edits) := by
  induction edits generalizing cursor with
  | nil => rfl
  | cons e rest ih =>
    have he : ¬ bytes.length < e.stop := by
      have := inside e List.mem_cons_self
      omega
    rw [joined, if_neg he, ih e.stop fun f hf => inside f (List.mem_cons_of_mem e hf)]
    rfl

/-- A pass over edits of which one ends behind the text fails at the first of them. -/
theorem joined_eq_error {bytes : List UInt8} {edits : List Edit} (cursor : Nat)
    (outside : ReachOutside bytes.length edits) :
    ∃ e ∈ edits, joined bytes cursor edits = .error (.editOutside e.start e.stop bytes.length) := by
  induction edits generalizing cursor with
  | nil => simp [ReachOutside] at outside
  | cons e rest ih =>
    by_cases he : bytes.length < e.stop
    · exact ⟨e, List.mem_cons_self, by rw [joined, if_pos he]⟩
    · have later : ReachOutside bytes.length rest := by
        obtain ⟨f, hf, hlt⟩ := outside
        rcases List.mem_cons.1 hf with rfl | hf
        · exact absurd hlt he
        · exact ⟨f, hf, hlt⟩
      obtain ⟨f, hf, herr⟩ := ih e.stop later
      refine ⟨f, List.mem_cons_of_mem e hf, ?_⟩
      rw [joined, if_neg he, herr]
      rfl

/-! ### One replacement after the other -/

/-- Replacing the ranges of edits in order, the last one first, leaves what is before the
cursor and joins the pieces from there on. -/
theorem foldr_replaceIn_eq {bytes : List UInt8} {edits : List Edit} (cursor : Nat)
    (ordered : edits.Pairwise Precedes) (inside : ∀ e ∈ edits, e.stop ≤ bytes.length)
    (behind : ∀ e ∈ edits, cursor ≤ e.start) (hcursor : cursor ≤ bytes.length) :
    edits.foldr (fun e acc => replaceIn acc e) bytes =
      bytes.take cursor ++ pieces bytes cursor edits := by
  induction edits generalizing cursor with
  | nil => simp [pieces]
  | cons e rest ih =>
    have hstop : e.stop ≤ bytes.length := inside e List.mem_cons_self
    have hrange := e.start_le_stop
    have hstart : cursor ≤ e.start := behind e List.mem_cons_self
    have later := ih e.stop ordered.of_cons (fun f hf => inside f (List.mem_cons_of_mem e hf))
      (fun f hf => (List.rel_of_pairwise_cons ordered hf).2) hstop
    -- what follows the edit is untouched by the replacements behind it
    have hfront : (bytes.take e.stop ++ pieces bytes e.stop rest).take e.start =
        bytes.take e.start := by
      rw [List.take_append_of_le_length (by simp; omega), List.take_take,
        Nat.min_eq_left hrange]
    have hback : (bytes.take e.stop ++ pieces bytes e.stop rest).drop e.stop =
        pieces bytes e.stop rest :=
      List.drop_left' (by simp [hstop])
    have hgap : bytes.take e.start = bytes.take cursor ++ (bytes.take e.start).drop cursor := by
      conv => lhs; rw [← List.take_append_drop cursor (bytes.take e.start)]
      rw [List.take_take, Nat.min_eq_left hstart]
    calc List.foldr (fun e acc => replaceIn acc e) bytes (e :: rest)
        = replaceIn (bytes.take e.stop ++ pieces bytes e.stop rest) e := by
          rw [List.foldr_cons, later]
      _ = bytes.take e.start ++ bytesOf e.text ++ pieces bytes e.stop rest := by
          rw [replaceIn, hfront, hback]
      _ = bytes.take cursor ++ pieces bytes cursor (e :: rest) := by
          rw [hgap, pieces]
          simp only [List.append_assoc]

theorem foldr_replaceIn_inOrder {bytes : List UInt8} {edits : List Edit} (apart : Apart edits)
    (inside : ∀ e ∈ edits, e.stop ≤ bytes.length) :
    (inOrder edits).foldr (fun e acc => replaceIn acc e) bytes = pieces bytes 0 (inOrder edits) :=
  foldr_replaceIn_eq 0 (pairwise_precedes_inOrder apart)
    (fun e he => inside e ((inOrder_perm edits).mem_iff.1 he)) (fun _ _ => Nat.zero_le _)
    (Nat.zero_le _)

/-- Edits that begin ever earlier, if they do not overlap, are the edits in order backwards. -/
theorem reverse_eq_inOrder {edits backwards : List Edit} (perm : backwards.Perm edits)
    (falling : backwards.Pairwise fun a b => b.start ≤ a.start) (apart : Apart edits) :
    backwards.reverse = inOrder edits := by
  have apart' : Apart backwards := apart.perm perm.symm
  refine eq_inOrder_of_perm (backwards.reverse_perm.trans perm) (List.pairwise_reverse.2 ?_)
  refine (falling.and apart').imp fun {a b} h => ?_
  rcases (overlaps_eq_false_iff a b).1 h.2 with before | behind
  · have := before.1
    omega
  · exact behind

/-! ### What is kept -/

/-- Every entry of a numbered list between two places is numbered between them. -/
theorem filter_isOutside_covered (bytes : List UInt8) (e : Edit) (rest : List Edit) :
    (((bytes.zipIdx.drop e.start).take (e.stop - e.start)).filter
      fun p => isOutside (e :: rest) p.2) = [] := by
  apply List.filter_eq_nil_iff.2
  intro p hp
  obtain ⟨k, hk, rfl⟩ := List.mem_iff_getElem.1 hp
  have hlt : k < e.stop - e.start := by
    rw [List.length_take] at hk
    omega
  have hrange : e.start ≤ e.start + k ∧ e.start + k < e.stop := by omega
  simp [isOutside, hrange]

/-- The bytes from the cursor on that no edit covers survive, in order. -/
theorem sublist_pieces (bytes : List UInt8) (edits : List Edit) (cursor : Nat) :
    (((bytes.zipIdx.drop cursor).filter fun p => isOutside edits p.2).map (·.1)).Sublist
      (pieces bytes cursor edits) := by
  induction edits generalizing cursor with
  | nil =>
    rw [pieces]
    refine (List.filter_sublist.map _).trans ?_
    rw [List.map_drop, List.zipIdx_map_fst]
  | cons e rest ih =>
    let numbered := bytes.zipIdx
    let outside := fun p : UInt8 × Nat => isOutside (e :: rest) p.2
    have hdrop : (numbered.drop cursor).Sublist
        ((numbered.take e.start).drop cursor ++ numbered.drop e.start) := by
      conv => lhs; rw [← List.take_append_drop e.start numbered]
      rw [List.drop_append]
      exact (List.Sublist.refl _).append (List.drop_sublist _ _)
    have hmiddle : numbered.drop e.start =
        (numbered.drop e.start).take (e.stop - e.start) ++ numbered.drop e.stop := by
      conv => lhs; rw [← List.take_append_drop (e.stop - e.start) (numbered.drop e.start)]
      rw [List.drop_drop, Nat.add_sub_cancel' e.start_le_stop]
    have hbefore : (((numbered.take e.start).drop cursor).filter outside |>.map (·.1)).Sublist
        ((bytes.take e.start).drop cursor) := by
      refine (List.filter_sublist.map _).trans ?_
      rw [List.map_drop, List.map_take, List.zipIdx_map_fst]
    have hbehind : ((numbered.drop e.stop).filter outside |>.map (·.1)).Sublist
        (pieces bytes e.stop rest) := by
      refine ((List.monotone_filter_right _ fun p hp => ?_).map _).trans (ih e.stop)
      exact (Bool.and_eq_true_iff.1 hp).2
    refine ((hdrop.filter outside).map _).trans ?_
    rw [hmiddle, List.filter_append, List.filter_append, filter_isOutside_covered, List.nil_append,
      List.map_append, pieces]
    exact (hbefore.trans (List.sublist_append_left _ _)).append hbehind

/-- Bytes outside all edits are kept, in order, when edits are joined. -/
theorem keptBytes_sublist_pieces (bytes : List UInt8) {edits ordered : List Edit}
    (perm : ordered.Perm edits) : (keptBytes bytes edits).Sublist (pieces bytes 0 ordered) := by
  have same : ∀ p : UInt8 × Nat, isOutside edits p.2 = isOutside ordered p.2 := fun p => by
    simp only [isOutside, perm.all_eq]
  have h := sublist_pieces bytes ordered 0
  simp only [List.drop_zero, ← same] at h
  exact h

/-! ### The outcome as a whole -/

theorem splice_eq_ok {bytes : List UInt8} {edits : List Edit} (apart : Apart edits)
    (inside : ¬ ReachOutside bytes.length edits) :
    splice bytes edits = .ok (pieces bytes 0 (inOrder edits)) := by
  rw [splice, (findOverlap?_eq_none_iff edits).2 apart]
  apply joined_eq_ok 0
  intro e he
  by_contra hlt
  exact inside ⟨e, (inOrder_perm edits).mem_iff.1 he, by omega⟩

/-- Edits that clash fail with the fault that says so. -/
theorem splice_eq_error {bytes : List UInt8} {edits : List Edit}
    (clash : OverlapSomewhere edits ∨ ReachOutside bytes.length edits) :
    ∃ fault, splice bytes edits = .error fault ∧ fault.kind = "EditConflictError" := by
  cases hfound : findOverlap? edits with
  | some p =>
    exact ⟨.overlappingEdits p.1.start p.1.stop p.2.start p.2.stop, by rw [splice, hfound], rfl⟩
  | none =>
    have apart : Apart edits := (findOverlap?_eq_none_iff edits).1 hfound
    have outside : ReachOutside bytes.length (inOrder edits) := by
      rcases clash with overlap | ⟨e, he, hlt⟩
      · exact absurd overlap ((apart_iff_not_overlapSomewhere edits).1 apart)
      · exact ⟨e, (inOrder_perm edits).mem_iff.2 he, hlt⟩
    obtain ⟨e, -, herr⟩ := joined_eq_error 0 outside
    exact ⟨.editOutside e.start e.stop bytes.length, by rw [splice, hfound]; exact herr, rfl⟩

/-- Applying is splicing and then decoding, also if there are no edits at all. -/
theorem apply_eq_bind (text : String) (edits : List Edit) :
    apply text edits = (splice (bytesOf text) edits).bind decoded := by
  cases edits with
  | nil =>
    have hnone : splice (bytesOf text) [] = .ok (bytesOf text) := by
      simp [splice, findOverlap?, inOrder, firstOverlap?, joined]
    rw [hnone]
    exact (decoded_bytesOf text).symm
  | cons e rest => rfl

theorem decoded_eq_ok_iff {bytes : List UInt8} {s : String} :
    decoded bytes = .ok s ↔ bytes = bytesOf s := by
  constructor
  · intro h
    rw [decoded, Text.decode] at h
    by_cases hvalid : (ByteArray.mk bytes.toArray).IsValidUTF8
    · rw [String.fromUTF8?, dif_pos hvalid] at h
      cases h
      rfl
    · rw [String.fromUTF8?, dif_neg hvalid] at h
      cases h
  · rintro rfl
    exact decoded_bytesOf s

theorem infix_pieces {edits : List Edit} {e : Edit} (h : e ∈ edits) (bytes : List UInt8)
    (cursor : Nat) : bytesOf e.text <:+: pieces bytes cursor edits := by
  induction edits generalizing cursor with
  | nil => cases h
  | cons f rest ih =>
    rw [pieces]
    rcases List.mem_cons.1 h with rfl | h
    · exact List.infix_append _ _ _
    · exact (ih h f.stop).trans (List.suffix_append _ _).isInfix

/-- The replacement of each edit stands in one piece in the text that comes out. -/
theorem bytesOf_infix_of_apply_eq_ok {text out : String} {edits : List Edit}
    (happly : apply text edits = .ok out) {e : Edit} (h : e ∈ edits) :
    bytesOf e.text <:+: bytesOf out := by
  have hclean : ¬ (OverlapSomewhere edits ∨ ReachOutside (bytesOf text).length edits) := by
    intro hclash
    obtain ⟨fault, hfault, -⟩ := splice_eq_error hclash
    rw [apply_eq_bind, hfault] at happly
    cases happly
  obtain ⟨hoverlap, hinside⟩ := not_or.1 hclean
  rw [apply_eq_bind, splice_eq_ok ((apart_iff_not_overlapSomewhere edits).2 hoverlap) hinside]
    at happly
  rw [← decoded_eq_ok_iff.1 happly]
  exact infix_pieces ((inOrder_perm edits).mem_iff.2 h) _ _

/-- The outcome does not depend on the order in which edits are given. -/
theorem splice_perm (bytes : List UInt8) {edits others : List Edit} (perm : edits.Perm others) :
    splice bytes edits = splice bytes others := by
  have hranges := firstOverlap?_ranges_eq (ranges_inOrder_eq_of_perm perm)
  cases hfound : findOverlap? edits with
  | none =>
    have apart : Apart edits := (findOverlap?_eq_none_iff edits).1 hfound
    have hsame : inOrder edits = inOrder others :=
      eq_inOrder_of_perm ((inOrder_perm edits).trans perm) (pairwise_precedes_inOrder apart)
    rw [splice, splice, hfound, (findOverlap?_eq_none_iff others).2 (apart.perm perm), hsame]
  | some p =>
    -- the pair found in the other arrangement has the same ranges, and the fault tells no more
    obtain ⟨a, b⟩ := p
    rw [findOverlap?] at hfound
    rw [hfound, Option.map_some] at hranges
    obtain ⟨⟨c, d⟩, hother, hsame⟩ := Option.map_eq_some_iff.1 hranges.symm
    simp only [range, Prod.mk.injEq] at hsame
    obtain ⟨⟨hc₁, hc₂⟩, hd₁, hd₂⟩ := hsame
    rw [splice, splice, findOverlap?, findOverlap?, hfound, hother]
    simp only [hc₁, hc₂, hd₁, hd₂]

/-- Whether a fault is one of clashing edits; a text that bytes fail to encode is another. -/
theorem kind_ne_of_decoded_eq_error {bytes : List UInt8} {fault : Fault}
    (h : decoded bytes = .error fault) : fault.kind ≠ "EditConflictError" := by
  unfold decoded at h
  cases hd : Text.decode ⟨bytes.toArray⟩ with
  | ok s => simp [hd] at h
  | error e =>
    simp only [hd, Except.error.injEq] at h
    subst h
    simp [Fault.kind]

/-- Edits clash exactly if two at different positions overlap or one ends behind the text.  If
they do not, the bytes are those that replacing range after range leaves, from the greatest
beginning to the least, and the bytes outside all ranges are among them in order.  Whatever
comes out, it is the same for every arrangement of the edits. -/
theorem apply_eq_replacing_one_by_one (text : String) (edits : List Edit) :
    ((∃ fault, apply text edits = .error fault ∧ fault.kind = "EditConflictError") ↔
      edits ≠ [] ∧ (OverlapSomewhere edits ∨ ReachOutside text.utf8ByteSize edits)) ∧
    (¬ (OverlapSomewhere edits ∨ ReachOutside text.utf8ByteSize edits) →
      ∀ backwards : List Edit, backwards.Perm edits →
        backwards.Pairwise (fun a b => b.start ≤ a.start) →
          splice (bytesOf text) edits = .ok (backwards.foldl replaceIn (bytesOf text)) ∧
          apply text edits = decoded (backwards.foldl replaceIn (bytesOf text)) ∧
          (keptBytes (bytesOf text) edits).Sublist (backwards.foldl replaceIn (bytesOf text))) ∧
    ∀ others : List Edit, others.Perm edits → apply text others = apply text edits := by
  rw [← length_bytesOf]
  refine ⟨⟨?_, ?_⟩, ?_, ?_⟩
  · rintro ⟨fault, herr, hkind⟩
    have hclash : OverlapSomewhere edits ∨ ReachOutside (bytesOf text).length edits := by
      by_contra hnone
      obtain ⟨hoverlap, hinside⟩ := not_or.1 hnone
      rw [apply_eq_bind, splice_eq_ok ((apart_iff_not_overlapSomewhere edits).2 hoverlap) hinside]
        at herr
      exact kind_ne_of_decoded_eq_error herr hkind
    refine ⟨?_, hclash⟩
    rintro rfl
    simp [OverlapSomewhere, ReachOutside] at hclash
  · rintro ⟨-, hclash⟩
    obtain ⟨fault, herr, hkind⟩ := splice_eq_error hclash
    exact ⟨fault, by rw [apply_eq_bind, herr]; rfl, hkind⟩
  · intro hnone backwards perm falling
    obtain ⟨hoverlap, hinside⟩ := not_or.1 hnone
    have apart : Apart edits := (apart_iff_not_overlapSomewhere edits).2 hoverlap
    have hfold : backwards.foldl replaceIn (bytesOf text) =
        pieces (bytesOf text) 0 (inOrder edits) := by
      rw [← List.foldr_reverse, reverse_eq_inOrder perm falling apart]
      apply foldr_replaceIn_inOrder apart
      intro e he
      by_contra hlt
      exact hinside ⟨e, he, by omega⟩
    rw [hfold, apply_eq_bind, splice_eq_ok apart hinside]
    exact ⟨rfl, rfl, keptBytes_sublist_pieces _ (inOrder_perm edits)⟩
  · intro others perm
    rw [apply_eq_bind, apply_eq_bind, splice_perm _ perm]

end TsxLint.Edit
