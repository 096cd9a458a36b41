/-
Module: TsxLint.Proofs.Source.TemplateSplit
Purpose: A template string is cut into chunks and expressions without loss and in order.
Main exports: Document.exists_append_of_slice, Model.IsBraced, Model.IsSubstitution,
  Model.split_of_build
-/
import TsxLint.Proofs.Rules.ClassLists
import TsxLint.Proofs.Source.Layout
import TsxLint.Proofs.Source.NodeOrder
import TsxLint.Proofs.Source.Parts
import TsxLint.Proofs.Source.Totality

namespace TsxLint

open ClassNames (weave)

/-!
The cursor that cuts a template string runs from one byte behind its beginning to one byte before its
end, and jumps over each substitution.  In a well-formed tree whose marks are where they belong, the
pieces it passes and those it jumps over meet, so that together they are the text
(`Model.split_of_build`).  An expression begins behind its chunk and before the next one, so
the children of the node, which are ordered by their beginnings, are chunks and expressions in turn.
-/

/-! ### Texts of ranges -/

/-- What is read of a range between characters stands in the text at that range. -/
theorem Document.exists_append_of_slice {text s : String} {first last : Nat}
    (hfirst : (String.Pos.Raw.mk first).IsValid text) (hlast : (String.Pos.Raw.mk last).IsValid text)
    (hle : first ≤ last) (h : (ofText text).slice first last = .ok s) :
    ∃ front back, text = front ++ s ++ back ∧ front.utf8ByteSize = first ∧
      (front ++ s).utf8ByteSize = last := by
  obtain ⟨front, later, hfront, hfirst⟩ := String.Pos.Raw.isValid_iff_exists_append.1 hfirst
  obtain ⟨upto, back, hupto, hlast⟩ := String.Pos.Raw.isValid_iff_exists_append.1 hlast
  have hfirst : first = front.utf8ByteSize := congrArg String.Pos.Raw.byteIdx hfirst
  have hlast : last = upto.utf8ByteSize := congrArg String.Pos.Raw.byteIdx hlast
  have htake : (Edit.bytesOf text).take last = Edit.bytesOf upto := by
    rw [hupto, Edit.bytesOf_append, hlast, ← Edit.length_bytesOf, List.take_left]
  have htakeFront : (Edit.bytesOf text).take first = Edit.bytesOf front := by
    rw [hfront, Edit.bytesOf_append, hfirst, ← Edit.length_bytesOf, List.take_left]
  have hsplit := List.take_append_drop first ((Edit.bytesOf text).take last)
  rw [slice_eq_ok_iff.1 h, List.take_take, Nat.min_eq_left hle, htakeFront, htake,
    ← Edit.bytesOf_append] at hsplit
  have hjoined : upto = front ++ s := (Edit.bytesOf_injective hsplit).symm
  exact ⟨front, back, hjoined ▸ hupto, hfirst.symm, hjoined ▸ hlast.symm⟩

/-- The bytes at the ends of a range are those of what is read of it. -/
theorem Document.ends_of_slice {text s : String} {first last : Nat} {x y : UInt8}
    (hlast : last ≤ text.utf8ByteSize) (h : (ofText text).slice first last = .ok s)
    (hx : (Edit.bytesOf s).head? = some x) (hy : (Edit.bytesOf s).getLast? = some y) :
    (Edit.bytesOf text)[first]? = some x ∧ (Edit.bytesOf text)[last - 1]? = some y := by
  rw [← slice_eq_ok_iff.1 h] at hx hy
  constructor
  · rw [List.head?_drop, List.getElem?_take] at hx
    split at hx
    · exact hx
    · cases hx
  · rw [List.getLast?_drop, List.getLast?_take] at hy
    split at hy
    · cases hy
    · split at hy
      · cases hy
      · have hlt : last - 1 < (Edit.bytesOf text).length := by
          rw [Edit.length_bytesOf]
          omega
        rw [List.getElem?_eq_getElem hlt, Option.some_or] at hy
        rw [List.getElem?_eq_getElem hlt, hy]

theorem weave_perm {α : Type} {pieces substitutions : List α}
    (h : substitutions.length ≤ pieces.length) :
    (weave pieces substitutions).Perm (pieces ++ substitutions) := by
  induction pieces generalizing substitutions with
  | nil =>
    rw [List.eq_nil_of_length_eq_zero (Nat.le_zero.1 h)]
    exact .refl _
  | cons piece pieces ih =>
    cases substitutions with
    | nil => exact (ih (Nat.zero_le _)).cons piece
    | cons s substitutions =>
      have hrest := ih (Nat.le_of_succ_le_succ h)
      exact ((hrest.cons s).trans List.perm_middle.symm).cons piece

namespace Model

variable {d : Document} {text : String} {root t c : Tree} {n : Node}

/-! ### Substitutions -/

/-- What is written of a tree begins and ends with the marks of a substitution. -/
def IsBraced (d : Document) (c : Tree) : Prop :=
  ∃ inner, textOf d c = .ok ("$\x7b" ++ inner ++ "\x7d")

/-- A substitution is written between its marks, and what is named in it lies between them. -/
structure IsSubstitution (d : Document) (c : Tree) : Prop where
  text : ∃ inner, textOf d c = .ok ("$\x7b" ++ inner ++ "\x7d")
  inside : ∀ k ∈ c.kids, c.start + 2 ≤ k.start ∧ k.stop < c.stop

/-- Trees one behind the other between two places. -/
def InTurn (cursor stop : Nat) : List Tree → Prop
  | [] => cursor ≤ stop
  | c :: rest => cursor ≤ c.start ∧ c.start ≤ c.stop ∧ InTurn c.stop stop rest

theorem inTurn_of_pairwise {cursor stop : Nat} {ts : List Tree} (hle : cursor ≤ stop)
    (hordered : ts.Pairwise fun a b => a.stop ≤ b.start)
    (hinside : ∀ c ∈ ts, cursor ≤ c.start ∧ c.start ≤ c.stop ∧ c.stop ≤ stop) :
    InTurn cursor stop ts := by
  induction ts generalizing cursor with
  | nil => exact hle
  | cons c rest ih =>
    obtain ⟨hc, hrest⟩ := List.forall_mem_cons.1 hinside
    obtain ⟨hbehind, hordered⟩ := List.pairwise_cons.1 hordered
    exact ⟨hc.1, hc.2.1, ih hc.2.2 hordered fun u hu => ⟨hbehind u hu, (hrest u hu).2⟩⟩

theorem InTurn.le {cursor stop : Nat} {ts : List Tree} (h : InTurn cursor stop ts) :
    cursor ≤ stop := by
  induction ts generalizing cursor with
  | nil => exact h
  | cons c rest ih =>
    obtain ⟨hstart, hle, hrest⟩ := h
    exact hstart.trans (hle.trans (ih hrest))

/-- The pieces that the cursor passes and the trees that it jumps over are the text that it moves
across. -/
theorem bytesOf_join_of_templateFrom {part : Tree → Node → Prop} {cursor stop : Nat}
    {ts : List Tree} {chunks : List Chunk} {nodes : List Node} {sources : List String}
    (h : TemplateFrom (.ofText text) part stop cursor ts chunks nodes)
    (hturn : InTurn cursor stop ts)
    (hsources : List.Forall₂ (fun c s => textOf (.ofText text) c = .ok s) ts sources) :
    ((Edit.bytesOf text).take stop).drop cursor =
      Edit.bytesOf (String.join (weave (chunks.map Chunk.raw) sources)) := by
  have hraw {first last : Nat} {c : Chunk} (hchunk : chunk (.ofText text) first last = .ok c) :
      ((Edit.bytesOf text).take last).drop first = Edit.bytesOf c.raw := by
    obtain ⟨raw, hslice, hchunk⟩ := Outcome.exists_of_bind_eq_ok hchunk
    cases hchunk
    exact Document.slice_eq_ok_iff.1 hslice
  induction ts generalizing cursor chunks nodes sources with
  | nil =>
    cases h with
    | last hchunk =>
      cases hsources
      simp only [List.map_cons, List.map_nil, weave, String.join_cons, String.join_nil,
        String.append_empty, hraw hchunk]
  | cons u rest ih =>
    cases h with
    | next hchunk hexpression hrest =>
      cases hsources with
      | cons hsource hsources =>
        obtain ⟨hstart, hle, hturn⟩ := hturn
        rw [Edit.take_drop_eq_append _ hstart (hle.trans hturn.le),
          Edit.take_drop_eq_append _ hle hturn.le, ih hrest hturn hsources, hraw hchunk,
          Document.slice_eq_ok_iff.1 hsource]
        simp only [List.map_cons, weave, String.join_cons, Edit.bytesOf_append]

/-! ### Marks -/

/-- The text in front of a template string with its opening mark, and the text from its closing mark
on. -/
theorem exists_around_of_quoted {inner : String} (ht : t.IsLaidOut text)
    (quoted : textOf (.ofText text) t = .ok ("\x60" ++ inner ++ "\x60")) :
    ∃ front back, text = front ++ inner ++ back ∧ front.utf8ByteSize = t.start + 1 ∧
      t.start + 1 + inner.utf8ByteSize = t.stop - 1 := by
  obtain ⟨front, back, htext, hstart, hstop⟩ := Document.exists_append_of_slice ht.start_isValid
    ht.stop_isValid ht.start_le_stop quoted
  have hmark : "\x60".utf8ByteSize = 1 := by decide
  simp only [String.utf8ByteSize_append, hmark, hstart] at hstop
  refine ⟨front ++ "\x60", "\x60" ++ back, ?_, ?_, by omega⟩
  · simp only [htext, String.append_assoc]
  · rw [String.utf8ByteSize_append, hmark, hstart]

/-- The places next to the marks of a template string are between characters. -/
theorem hasMarks_of_quoted {inner : String} (ht : t.IsLaidOut text)
    (quoted : textOf (.ofText text) t = .ok ("\x60" ++ inner ++ "\x60")) : t.HasMarks text := by
  obtain ⟨front, back, htext, hfront, hinner⟩ := exists_around_of_quoted ht quoted
  refine fun _ => ⟨by omega, fun _ => ⟨?_, ?_⟩⟩
  · refine String.Pos.Raw.isValid_iff_exists_append.2 ⟨front, inner ++ back, ?_, ?_⟩
    · rw [htext, String.append_assoc]
    · exact String.Pos.Raw.ext hfront.symm
  · refine String.Pos.Raw.isValid_iff_exists_append.2 ⟨front ++ inner, back, htext, ?_⟩
    apply String.Pos.Raw.ext
    show t.stop - 1 = (front ++ inner).utf8ByteSize
    rw [String.utf8ByteSize_append, hfront, hinner]

/-- What is between the marks of a template string. -/
theorem take_drop_of_quoted {inner : String} (ht : t.IsLaidOut text)
    (quoted : textOf (.ofText text) t = .ok ("\x60" ++ inner ++ "\x60")) :
    ((Edit.bytesOf text).take (t.stop - 1)).drop (t.start + 1) = Edit.bytesOf inner := by
  obtain ⟨front, back, htext, hfront, hinner⟩ := exists_around_of_quoted ht quoted
  rw [← Edit.length_bytesOf] at hfront
  rw [htext, Edit.bytesOf_append, Edit.bytesOf_append, List.take_left', List.drop_left' hfront]
  rw [List.length_append, hfront, Edit.length_bytesOf, hinner]

/-- A substitution is at least as long as its marks. -/
theorem IsBraced.length_le (h : IsBraced (.ofText text) c) (hc : c.IsLaidOut text) :
    c.start + 3 ≤ c.stop := by
  obtain ⟨inner, htext⟩ := h
  obtain ⟨front, back, -, hstart, hstop⟩ := Document.exists_append_of_slice hc.start_isValid
    hc.stop_isValid hc.start_le_stop htext
  have hopening : "$\x7b".utf8ByteSize = 2 := by decide
  have hclosing : "\x7d".utf8ByteSize = 1 := by decide
  simp only [String.utf8ByteSize_append, hopening, hclosing, hstart] at hstop
  omega

/-- A substitution lies between the marks of its template string. -/
theorem IsBraced.between {inner : String} (h : IsBraced (.ofText text) c)
    (ht : t.WellFormed text) (hc : c ∈ substitutionTrees t)
    (quoted : textOf (.ofText text) t = .ok ("\x60" ++ inner ++ "\x60")) :
    t.start + 1 ≤ c.start ∧ c.stop ≤ t.stop - 1 := by
  obtain ⟨hwell, hstart, hstop⟩ := wellFormed_of_mem_substitutionTrees ht hc
  obtain ⟨written, htext⟩ := h
  have hmark : Edit.bytesOf "\x60" = [0x60] := by decide
  have hopening : Edit.bytesOf "$\x7b" = [0x24, 0x7b] := by decide
  have hclosing : Edit.bytesOf "\x7d" = [0x7d] := by decide
  obtain ⟨hfirst, hlast⟩ := Document.ends_of_slice (x := 0x60) (y := 0x60)
    ht.isLaidOut.stop_isValid.le_utf8ByteSize quoted
    (by simp [Edit.bytesOf_append, hmark]) (by rw [Edit.bytesOf_append, hmark, List.getLast?_concat])
  obtain ⟨hfirst', hlast'⟩ := Document.ends_of_slice (x := 0x24) (y := 0x7d)
    hwell.isLaidOut.stop_isValid.le_utf8ByteSize htext
    (by simp [Edit.bytesOf_append, hopening])
    (by rw [Edit.bytesOf_append, hclosing, List.getLast?_concat])
  have hne : t.start ≠ c.start := by
    intro heq
    rw [heq, hfirst'] at hfirst
    exact absurd hfirst (by decide)
  have hne' : t.stop ≠ c.stop := by
    intro heq
    rw [heq, hlast'] at hlast
    exact absurd hlast (by decide)
  omega

/-- The expression of a substitution begins and ends between its marks. -/
theorem IsSubstitution.start_between {e : Node} (h : IsSubstitution (.ofText text) c)
    (hc : c.WellFormed text) (he : SubstitutionFrom d (HasSpan d) c e) :
    (c.start : Int) < e.start ∧ e.start < c.stop := by
  have hlength := IsBraced.length_le h.text hc.isLaidOut
  cases he with
  | empty hkids =>
    show (c.start : Int) < c.start + 2 ∧ (c.start : Int) + 2 < c.stop
    omega
  | part hkids built =>
    have hk := List.mem_of_mem_head? hkids
    obtain ⟨hstart, hstop⟩ := h.inside _ hk
    have hle := (hc.of_mem (mem_subtrees_of_mem_kids hk)).isLaidOut.start_le_stop
    rw [built.start_eq]
    omega

/-- The cursor meets the substitutions in turn if they have their marks. -/
theorem inTurn_of_isBraced {inner : String} (ht : t.WellFormed text)
    (quoted : textOf (.ofText text) t = .ok ("\x60" ++ inner ++ "\x60"))
    (hbraced : ∀ c ∈ substitutionTrees t, IsBraced (.ofText text) c) :
    InTurn (t.start + 1) (t.stop - 1) (substitutionTrees t) := by
  refine inTurn_of_pairwise ?_ (ht.isLaidOut.ordered.filter _) fun c hc => ?_
  · obtain ⟨front, back, -, -, hinner⟩ := exists_around_of_quoted ht.isLaidOut quoted
    omega
  · obtain ⟨hwell, -⟩ := wellFormed_of_mem_substitutionTrees ht hc
    obtain ⟨hstart, hstop⟩ := (hbraced c hc).between ht hc quoted
    exact ⟨hstart, hwell.isLaidOut.start_le_stop, hstop⟩

/-- The cursor meets the substitutions in turn. -/
theorem inTurn_substitutionTrees {inner : String} (ht : t.WellFormed text)
    (quoted : textOf (.ofText text) t = .ok ("\x60" ++ inner ++ "\x60"))
    (hsubstitutions : ∀ c ∈ substitutionTrees t, IsSubstitution (.ofText text) c) :
    InTurn (t.start + 1) (t.stop - 1) (substitutionTrees t) :=
  inTurn_of_isBraced ht quoted fun c hc => (hsubstitutions c hc).text

/-! ### Chunks and expressions in turn -/

theorem ends_of_chunk {first last : Int} {c : Chunk} (h : chunk d first last = .ok c) :
    (Node.chunk c).start = first ∧ (Node.chunk c).stop = last := by
  obtain ⟨raw, -, h⟩ := Outcome.exists_of_bind_eq_ok h
  cases h
  exact ⟨rfl, rfl⟩

/-- Chunks and expressions begin one behind the other. -/
theorem pairwise_weave_of_templateFrom {cursor stop : Nat} {ts : List Tree} {chunks : List Chunk}
    {nodes : List Node} (h : TemplateFrom d (HasSpan d) stop cursor ts chunks nodes)
    (hturn : InTurn cursor stop ts)
    (hbetween : ∀ c ∈ ts, ∀ e, SubstitutionFrom d (HasSpan d) c e →
      (c.start : Int) < e.start ∧ e.start < c.stop) :
    (weave (chunks.map Node.chunk) nodes).Pairwise (fun a b => a.start < b.start) ∧
      ∀ m ∈ weave (chunks.map Node.chunk) nodes, (cursor : Int) ≤ m.start := by
  induction ts generalizing cursor chunks nodes with
  | nil =>
    cases h with
    | last hchunk => simp [weave, (ends_of_chunk hchunk).1]
  | cons c rest ih =>
    cases h with
    | @next _ _ _ piece e chunks nodes hchunk hexpression hrest =>
      obtain ⟨hc, hbetween⟩ := List.forall_mem_cons.1 hbetween
      obtain ⟨hcursor, -, hturn⟩ := hturn
      obtain ⟨hordered, hbehind⟩ := ih hrest hturn hbetween
      obtain ⟨hfirst, hlast⟩ := hc _ hexpression
      have hpiece := (ends_of_chunk hchunk).1
      have hbehindPiece : ∀ m ∈ weave (chunks.map Node.chunk) nodes, e.start < m.start :=
        fun m hm => Int.lt_of_lt_of_le hlast (hbehind m hm)
      simp only [List.map_cons, weave, List.pairwise_cons, List.forall_mem_cons, hpiece]
      refine ⟨⟨⟨by omega, fun m hm => ?_⟩, hbehindPiece, hordered⟩, by omega, by omega,
        fun m hm => ?_⟩
      · have := hbehindPiece m hm
        omega
      · have := hbehindPiece m hm
        omega

/-! ### The node of a template string -/

theorem assemble_template {part : Builder} (type : t.type = "template_string") :
    assemble d part t = template d part t := by
  rw [assemble, type]
  show (some <$> template d part t >>= _) = template d part t
  cases template d part t <;> rfl

theorem exists_template_of_assembled {part : Tree → Node → Prop} (h : Assembled d part t n)
    (type : t.type = "template_string") :
    ∃ chunks expressions, n = .template ⟨spanOf d t, chunks, expressions⟩ ∧
      TemplateFrom d part ((t.stop : Int) - 1) (t.start + 1) (substitutionTrees t) chunks
        expressions := by
  have hne {other : String} (hother : t.type = other) (hne : other ≠ "template_string") : False :=
    hne (hother.symm.trans type)
  cases h with
  | template _ hparts => exact ⟨_, _, rfl, hparts⟩
  | text hother =>
    rcases hother with hother | hother
    · exact (hne hother (by decide)).elim
    · exact (hne hother (by decide)).elim
  | keyword hother =>
    rw [type] at hother
    exact absurd hother (by decide)
  | other hother =>
    rw [type] at hother
    exact absurd hother (by decide)
  | program hother | importDeclaration hother | exportDeclaration hother | element hother
  | selfClosing hother | fragment hother | container hother | string hother | number hother
  | arrow hother | block hother | statement hother | declarator hother =>
    exact (hne hother (by decide)).elim

theorem hasSpan_of_buildWithin {depth : Nat} (h : buildWithin d depth t = .ok n) : HasSpan d t n :=
  buildWithin_induction (P := HasSpan d) (fun _ => rfl) (fun _ _ hassembled => hassembled.span_eq) h

theorem forall₂_of_templateFrom {part : Tree → Node → Prop} {stop cursor : Int} {ts : List Tree}
    {chunks : List Chunk} {nodes : List Node} (h : TemplateFrom d part stop cursor ts chunks nodes) :
    List.Forall₂ (SubstitutionFrom d part) ts nodes := by
  induction h with
  | last => exact .nil
  | next _ hexpression _ ih => exact .cons hexpression ih

theorem exists_sources {ts : List Tree} (h : ∀ c ∈ ts, IsSubstitution d c) :
    ∃ sources, ts.mapM (textOf d) = .ok sources := by
  refine (Outcome.FailsOnly.mapM fun c hc => ?_).exists_ok
  obtain ⟨inner, htext⟩ := (h c hc).text
  rw [htext]
  exact .ok _

/-- A template string with a chunk that cannot be read. -/
def HasBrokenChunk (d : Document) (fault : Fault) (t : Tree) : Prop :=
  t.type = "template_string" ∧
    ∃ r ∈ chunkRanges ((t.stop : Int) - 1) (t.start + 1) (substitutionTrees t),
      d.slice r.1 r.2 = .error fault

/-- Below the substitutions of a template string there is one with a chunk that cannot be read. -/
def HasBrokenBelow (d : Document) (t : Tree) (fault : Fault) : Prop :=
  ∃ c ∈ substitutionTrees t, ∃ u ∈ c.subtrees, HasBrokenChunk d fault u

/-- Where a template string has its marks, all that may fail is another one inside it. -/
theorem failsOnly_build_of_hasMarks (ht : t.WellFormed text) (type : t.type = "template_string")
    (hmarks : t.HasMarks text) :
    Outcome.FailsOnly (HasBrokenBelow (.ofText text) t) (build (.ofText text) t) := by
  have hreads : ∀ c ∈ substitutionTrees t,
      ReadsWith (HasBrokenBelow (.ofText text) t) (.ofText text) c := by
    intro c hc
    obtain ⟨hwell, -⟩ := wellFormed_of_mem_substitutionTrees ht hc
    refine ⟨fun u hu => ?_, fun u hu htype r hr fault hfault => ⟨c, hc, u, hu, htype, r, hr, hfault⟩⟩
    have hu := (hwell.of_mem hu).isLaidOut
    obtain ⟨s, hs⟩ := Document.exists_slice_eq_ok hu.start_isValid hu.stop_isValid
    rw [textOf, hs]
    exact .ok s
  have hchunks : ∀ r ∈ chunkRanges ((t.stop : Int) - 1) (t.start + 1) (substitutionTrees t),
      Outcome.FailsOnly (HasBrokenBelow (.ofText text) t) ((Document.ofText text).slice r.1 r.2) := by
    intro r hr
    obtain ⟨s, hs⟩ := exists_slice_of_mem_chunkRanges ht type hmarks hr
    rw [hs]
    exact .ok s
  have hparts := failsOnly_templateParts (fun c => failsOnly_buildWithin (t.height - 1)) hreads hchunks
  rw [build_eq_assemble, assemble_template type]
  exact hparts.bind fun _ => .ok _

/-- A template string of a well-formed tree, between its marks and with substitutions between theirs,
becomes a template node: a chunk more than there are expressions, the chunks and the texts of the
substitutions in turn are what is between the marks, each expression comes from its substitution, and
the children are chunks and expressions in turn.  Unless there is a template string with a broken chunk
below a substitution, it does become a node. -/
theorem split_of_build {text inner : String} {root t : Tree} (wellFormed : root.WellFormed text)
    (mem : t ∈ root.subtrees) (type : t.type = "template_string")
    (quoted : textOf (.ofText text) t = .ok ("\x60" ++ inner ++ "\x60"))
    (substitutions : ∀ c ∈ substitutionTrees t, IsSubstitution (.ofText text) c) :
    (∀ n, build (.ofText text) t = .ok n → ∃ (node : Template Node) (sources : List String),
      n = .template node ∧ (substitutionTrees t).mapM (textOf (.ofText text)) = .ok sources ∧
      node.chunks.length = node.expressions.length + 1 ∧
      "\x60" ++ String.join (weave (node.chunks.map Chunk.raw) sources) ++ "\x60" =
        "\x60" ++ inner ++ "\x60" ∧
      List.Forall₂ (SubstitutionFrom (.ofText text) (HasSpan (.ofText text))) (substitutionTrees t)
        node.expressions ∧
      n.children = weave (node.chunks.map Node.chunk) node.expressions) ∧
    ∀ fault, build (.ofText text) t = .error fault → HasBrokenBelow (.ofText text) t fault := by
  have ht := wellFormed.of_mem mem
  have hturn := inTurn_substitutionTrees ht quoted substitutions
  refine ⟨fun n hn => ?_,
    failsOnly_build_of_hasMarks ht type (hasMarks_of_quoted ht.isLaidOut quoted)⟩
  rw [build_eq_assemble] at hn
  obtain ⟨chunks, expressions, rfl, hparts⟩ := exists_template_of_assembled
    (assembled_of_assemble (fun _ _ => hasSpan_of_buildWithin) hn) type
  have hstop : (t.stop : Int) - 1 = (t.stop - 1 : Nat) := by
    have := hturn.le
    omega
  have hcursor : (t.start : Int) + 1 = (t.start + 1 : Nat) := rfl
  rw [hstop, hcursor] at hparts
  obtain ⟨sources, hsources⟩ := exists_sources substitutions
  refine ⟨_, sources, rfl, hsources, length_of_templateFrom hparts, ?_,
    forall₂_of_templateFrom hparts, ?_⟩
  · have hjoin := bytesOf_join_of_templateFrom hparts hturn (Outcome.mapM_eq_ok_iff.1 hsources)
    rw [take_drop_of_quoted ht.isLaidOut quoted] at hjoin
    rw [Edit.bytesOf_injective hjoin]
  · have hbetween : ∀ c ∈ substitutionTrees t, ∀ e,
        SubstitutionFrom (.ofText text) (HasSpan (.ofText text)) c e →
        (c.start : Int) < e.start ∧ e.start < c.stop := fun c hc e he =>
      (substitutions c hc).start_between (wellFormed_of_mem_substitutionTrees ht hc).1 he
    have hlength := length_of_templateFrom hparts
    refine Node.inOrder_eq_of_perm (weave_perm ?_).symm
      (pairwise_weave_of_templateFrom hparts hturn hbetween).1
    rw [List.length_map]
    show expressions.length ≤ chunks.length
    exact hlength.symm ▸ Nat.le_succ _

/-- A template string with a letter of two bytes, a substitution, and an empty one right behind it. -/
def adjacentText : String := "\x60é$\x7ba\x7d$\x7b\x7d\x60"

/-- The tree of the template string. -/
def adjacentTree : Tree :=
  .node "template_string" true "" 0 11
    [.node "\x60" false "" 0 1 [], .node "string_fragment" true "" 1 3 [],
      .node "template_substitution" true "" 3 7
        [.node "$\x7b" false "" 3 5 [], .node "identifier" true "" 5 6 [],
          .node "\x7d" false "" 6 7 []],
      .node "template_substitution" true "" 7 10
        [.node "$\x7b" false "" 7 9 [], .node "\x7d" false "" 9 10 []],
      .node "\x60" false "" 10 11 []]

theorem split_of_build_adjacent :
    ∃ (node : Template Node) (sources : List String),
      build (.ofText adjacentText) adjacentTree = .ok (.template node) ∧
      "\x60" ++ String.join (weave (node.chunks.map Chunk.raw) sources) ++ "\x60" =
        adjacentText ∧
      (Node.template node).children = weave (node.chunks.map Node.chunk) node.expressions := by
  have hsubstitutions : ∀ c ∈ substitutionTrees adjacentTree,
      IsSubstitution (.ofText adjacentText) c := by
    intro c hc
    have hc : c = adjacentTree.children[2] ∨ c = adjacentTree.children[3] := by
      simpa [adjacentTree, substitutionTrees, Tree.children, Tree.named, Tree.type] using hc
    rcases hc with rfl | rfl
    · exact ⟨⟨"a", Document.slice_eq_ok_iff.2 (by decide +kernel)⟩, by decide⟩
    · exact ⟨⟨"", Document.slice_eq_ok_iff.2 (by decide +kernel)⟩, by decide⟩
  have hwell : adjacentTree.WellFormed adjacentText := by decide +kernel
  have hquoted : textOf (.ofText adjacentText) adjacentTree =
      .ok ("\x60" ++ "é$\x7ba\x7d$\x7b\x7d" ++ "\x60") :=
    Document.slice_eq_ok_iff.2 (by decide +kernel)
  obtain ⟨hnode, hfault⟩ :=
    split_of_build hwell (Tree.self_mem_subtrees adjacentTree) rfl hquoted hsubstitutions
  cases hbuild : build (.ofText adjacentText) adjacentTree with
  | error fault =>
    obtain ⟨c, hc, u, hu, htype, -⟩ := hfault fault hbuild
    have hnone : ∀ c ∈ substitutionTrees adjacentTree, ∀ u ∈ c.subtrees,
        u.type ≠ "template_string" := by decide
    exact absurd htype (hnone c hc u hu)
  | ok n =>
    obtain ⟨node, sources, rfl, -, -, hjoin, -, hchildren⟩ := hnode n hbuild
    exact ⟨node, sources, rfl, hjoin, hchildren⟩

end Model

end TsxLint
