/-
Module: TsxLint.Proofs.Imports.Rendering
Purpose: What a merged declaration binds can be told from its text.
Main exports: IsPlainName, BracedName.eq_of_text_eq, eq_of_bracedText_eq,
  ModuleDeclaration.eq_of_importText_eq, ImportGroup.rendering_unambiguous
-/
import TsxLint.Proofs.Imports.Legality
import TsxLint.Proofs.Text.ArgumentLists

namespace TsxLint

/-!
A declaration is written with blanks, commas, braces and an asterisk, and a name has none of
these.  So its text comes apart from the front: a run of characters up to the next mark is a name,
an asterisk begins a namespace and a brace the names in braces.

A name in braces is a run of one to four words.  The words `type` and `as` may be names
themselves, but which words are names is told by how many there are: one for a value, two for a
type, three for a renamed value and four for a renamed type.
-/

/-- Whether a character may stand in a name: it is not blank, and not what a declaration is
written with besides. -/
def isNameChar (c : Char) : Bool :=
  !Text.isBlank c && !([',', '\x7b', '\x7d', '*'].contains c)

/-- A name as it stands in a declaration: there is something of it, and nothing but what may stand
in names. -/
structure IsPlainName (s : String) : Prop where
  ne_empty : s ≠ ""
  unmarked : s.toList.all isNameChar = true

instance (s : String) : Decidable (IsPlainName s) :=
  decidable_of_iff (s ≠ "" ∧ s.toList.all isNameChar = true)
    ⟨fun h => ⟨h.1, h.2⟩, fun h => ⟨h.1, h.2⟩⟩

theorem IsPlainName.toList_ne_nil {s : String} (h : IsPlainName s) : s.toList ≠ [] := by
  intro hnil
  exact h.ne_empty (String.toList_eq_nil_iff.1 hnil)

theorem IsPlainName.not_mem {s : String} (h : IsPlainName s) {c : Char}
    (hc : isNameChar c = false) : c ∉ s.toList := by
  intro hmem
  rw [List.all_eq_true.1 h.unmarked c hmem] at hc
  cases hc

/-! ### Runs up to a mark -/

section Marks

variable {α : Type} {mark : α} {xs ys rest rest' : List α}

/-- A run without a mark ends where the mark is, so texts that begin with one have the same run
and the same rest. -/
theorem eq_and_eq_of_append_eq (hxs : mark ∉ xs) (hys : mark ∉ ys)
    (hrest : ∀ c ∈ rest.head?, c = mark) (hrest' : ∀ c ∈ rest'.head?, c = mark)
    (h : xs ++ rest = ys ++ rest') : xs = ys ∧ rest = rest' := by
  induction xs generalizing ys with
  | nil =>
    cases ys with
    | nil => exact ⟨rfl, h⟩
    | cons y ys =>
      rw [List.nil_append] at h
      have hy : y = mark := hrest y (by rw [h]; rfl)
      exact absurd (hy ▸ List.mem_cons_self) hys
  | cons x xs ih =>
    obtain ⟨hx, hxs⟩ := not_or.1 (mt List.mem_cons.2 hxs)
    cases ys with
    | nil =>
      rw [List.nil_append] at h
      exact absurd (hrest' x (by rw [← h]; rfl)).symm hx
    | cons y ys =>
      obtain ⟨rfl, htail⟩ := List.cons.inj h
      obtain ⟨rfl, hsame⟩ := ih hxs (mt (List.mem_cons_of_mem x) hys) htail
      exact ⟨rfl, hsame⟩

theorem head?_flatMap_mark (between : List α) (pieces : List (List α)) :
    ∀ c ∈ (pieces.flatMap fun piece => mark :: between ++ piece).head?, c = mark := by
  intro c hc
  cases pieces with
  | nil => cases hc
  | cons piece pieces =>
    cases hc
    rfl

theorem eq_of_flatMap_mark_eq {between : List α} {pieces others : List (List α)}
    (hpieces : ∀ piece ∈ pieces, mark ∉ piece) (hothers : ∀ piece ∈ others, mark ∉ piece)
    (h : (pieces.flatMap fun piece => mark :: between ++ piece) =
      others.flatMap fun piece => mark :: between ++ piece) : pieces = others := by
  induction pieces generalizing others with
  | nil =>
    cases others with
    | nil => rfl
    | cons other others => cases h
  | cons piece pieces ih =>
    cases others with
    | nil => cases h
    | cons other others =>
      obtain ⟨hpiece, hmore⟩ := List.forall_mem_cons.1 hpieces
      obtain ⟨hother, hmore'⟩ := List.forall_mem_cons.1 hothers
      rw [List.flatMap_cons, List.flatMap_cons, List.append_assoc, List.append_assoc,
        List.append_cancel_left_eq] at h
      obtain ⟨rfl, hsame⟩ := eq_and_eq_of_append_eq hpiece hother (head?_flatMap_mark between _)
        (head?_flatMap_mark between _) h
      rw [ih hmore hmore' hsame]

/-- Lists with the same values are the same if no two of their members have the same value. -/
theorem eq_of_map_eq {β γ : Type} {f : β → γ} {bs bs' : List β}
    (hinj : ∀ b ∈ bs, ∀ b' ∈ bs', f b = f b' → b = b') (h : bs.map f = bs'.map f) : bs = bs' := by
  induction bs generalizing bs' with
  | nil => exact (List.map_eq_nil_iff.1 h.symm).symm
  | cons b bs ih =>
    cases bs' with
    | nil => cases h
    | cons b' bs' =>
      obtain ⟨hb, hbs⟩ := List.cons.inj h
      have hsame := ih (fun c hc c' hc' => hinj c (.tail b hc) c' (.tail b' hc')) hbs
      rw [hinj b List.mem_cons_self b' List.mem_cons_self hb, hsame]

/-- Pieces that have something and no mark in them can be told from what they are joined to, if the
mark is what begins the text between them. -/
theorem eq_of_intercalate_eq {between : List α} {pieces others : List (List α)}
    (hpieces : ∀ piece ∈ pieces, piece ≠ [] ∧ mark ∉ piece)
    (hothers : ∀ piece ∈ others, piece ≠ [] ∧ mark ∉ piece)
    (h : (mark :: between).intercalate pieces = (mark :: between).intercalate others) :
    pieces = others := by
  have hfilled : ∀ {piece : List α} {more : List (List α)}, piece ≠ [] →
      (mark :: between).intercalate (piece :: more) ≠ [] := by
    intro piece more hsome hnil
    rw [Text.intercalate_cons, List.append_eq_nil_iff] at hnil
    exact hsome hnil.1
  cases pieces with
  | nil =>
    cases others with
    | nil => rfl
    | cons other others => exact absurd h.symm (hfilled (hothers other List.mem_cons_self).1)
  | cons piece pieces =>
    cases others with
    | nil => exact absurd h (hfilled (hpieces piece List.mem_cons_self).1)
    | cons other others =>
      obtain ⟨⟨-, hpiece⟩, hmore⟩ := List.forall_mem_cons.1 hpieces
      obtain ⟨⟨-, hother⟩, hmore'⟩ := List.forall_mem_cons.1 hothers
      rw [Text.intercalate_cons, Text.intercalate_cons] at h
      obtain ⟨rfl, hsame⟩ := eq_and_eq_of_append_eq hpiece hother (head?_flatMap_mark between _)
        (head?_flatMap_mark between _) h
      rw [eq_of_flatMap_mark_eq (fun p hp => (hmore p hp).2) (fun p hp => (hmore' p hp).2) hsame]

end Marks

/-! ### Names in braces -/

namespace BracedName

/-- The names that a name in braces consists of can be told from the rest of a declaration. -/
structure IsPlain (n : BracedName) : Prop where
  name : IsPlainName n.name
  renamed : ∀ other ∈ n.renamed, IsPlainName other

/-- The words that a name in braces is written with. -/
def words (n : BracedName) : List String :=
  (if n.typeOnly then ["type"] else []) ++ n.name :: n.renamed.elim [] fun other => ["as", other]

theorem text_eq (n : BracedName) : n.text = " ".intercalate n.words := by
  obtain ⟨typeOnly, name, renamed⟩ := n
  have htype : "type " = "type" ++ " " := by decide
  have has : " as " = " " ++ ("as" ++ " ") := by decide
  cases typeOnly <;> cases renamed <;>
    simp only [text, words, htype, has, Option.elim, String.intercalate_cons_cons,
      String.intercalate_singleton, String.append_assoc, List.nil_append, List.cons_append,
      String.empty_append, String.append_empty, if_true, Bool.false_eq_true, if_false]

theorem isPlainName_of_mem_words {n : BracedName} (h : n.IsPlain) {word : String}
    (hword : word ∈ n.words) : IsPlainName word := by
  have htype : IsPlainName "type" := by decide
  have has : IsPlainName "as" := by decide
  obtain ⟨typeOnly, name, renamed⟩ := n
  rcases List.mem_append.1 hword with hmark | hnames
  · cases typeOnly with
    | false => cases hmark
    | true =>
      cases List.mem_singleton.1 hmark
      exact htype
  · rcases List.mem_cons.1 hnames with rfl | hrenamed
    · exact h.name
    · cases renamed with
      | none => cases hrenamed
      | some other =>
        rcases List.mem_cons.1 hrenamed with rfl | hother
        · exact has
        · rw [List.mem_singleton.1 hother]
          exact h.renamed other rfl

/-- The number of words tells what each of them is. -/
theorem eq_of_words_eq {n n' : BracedName} (h : n.words = n'.words) : n = n' := by
  obtain ⟨typeOnly, name, renamed⟩ := n
  obtain ⟨typeOnly', name', renamed'⟩ := n'
  cases typeOnly <;> cases renamed <;> cases typeOnly' <;> cases renamed' <;>
    simp_all [words]

theorem eq_of_text_eq {n n' : BracedName} (hn : n.IsPlain) (hn' : n'.IsPlain)
    (h : n.text = n'.text) : n = n' := by
  have hword : ∀ {m : BracedName}, m.IsPlain →
      ∀ word ∈ m.words.map String.toList, word ≠ [] ∧ ' ' ∉ word := by
    intro m hm word hmem
    obtain ⟨s, hs, rfl⟩ := List.mem_map.1 hmem
    have hplain := isPlainName_of_mem_words hm hs
    exact ⟨hplain.toList_ne_nil, hplain.not_mem (by decide)⟩
  have hlists := congrArg String.toList h
  rw [text_eq, text_eq, String.toList_intercalate, String.toList_intercalate] at hlists
  have hwords := eq_of_intercalate_eq (hword hn) (hword hn') hlists
  exact eq_of_words_eq (List.map_injective_iff.2 (fun _ _ => String.toList_inj.1) hwords)

/-- A name in braces has something, and no comma. -/
theorem toList_text {n : BracedName} (h : n.IsPlain) :
    n.text.toList ≠ [] ∧ ',' ∉ n.text.toList := by
  have hname := h.name.toList_ne_nil
  have hcomma := h.name.not_mem (c := ',') (by decide)
  obtain ⟨typeOnly, name, renamed⟩ := n
  have hrenamed : ∀ other ∈ renamed, ',' ∉ other.toList := fun other hother =>
    (h.renamed other hother).not_mem (by decide)
  cases typeOnly <;> cases renamed <;> simp_all [text]

end BracedName

theorem toList_bracedText (names : List BracedName) :
    (bracedText names).toList =
      '\x7b' :: ([',', ' '].intercalate (names.map fun n => n.text.toList) ++ ['\x7d']) := by
  simp [bracedText, String.toList_intercalate, Function.comp_def]

/-- The text in braces tells the names. -/
theorem eq_of_bracedText_eq {names names' : List BracedName} (hnames : ∀ n ∈ names, n.IsPlain)
    (hnames' : ∀ n ∈ names', n.IsPlain) (h : bracedText names = bracedText names') :
    names = names' := by
  have hpieces : ∀ {ns : List BracedName}, (∀ n ∈ ns, n.IsPlain) →
      ∀ piece ∈ ns.map (fun n => n.text.toList), piece ≠ [] ∧ ',' ∉ piece := by
    intro ns hns piece hpiece
    obtain ⟨n, hn, rfl⟩ := List.mem_map.1 hpiece
    exact BracedName.toList_text (hns n hn)
  have hlists := congrArg String.toList h
  rw [toList_bracedText, toList_bracedText] at hlists
  have hjoined := List.append_cancel_right (List.cons.inj hlists).2
  have htexts := eq_of_intercalate_eq (hpieces hnames) (hpieces hnames') hjoined
  refine eq_of_map_eq ?_ htexts
  intro n hn n' hn' htext
  exact BracedName.eq_of_text_eq (hnames n hn) (hnames' n' hn') (String.toList_inj.1 htext)

/-! ### The items of an import -/

/-- Items as they stand one after another, each behind a comma. -/
def listed (items : List String) : List Char :=
  items.flatMap fun item => ',' :: [' '] ++ item.toList

theorem listed_append (items more : List String) :
    listed (items ++ more) = listed items ++ listed more := List.flatMap_append

/-- What follows an item: nothing, or an item that begins with another character than those
given. -/
def Follows (first : Char → Prop) (rest : List Char) : Prop :=
  rest = [] ∨ ∃ c more, rest = ',' :: ' ' :: c :: more ∧ ¬ first c

/-- An item that begins with certain characters. -/
structure BeginsWith (first : Char → Prop) (item : String) : Prop where
  comma : ',' ∉ item.toList
  head : ∃ c more, item.toList = c :: more ∧ first c

section Items

variable {first : Char → Prop} {item item' : Option String} {rest rest' : List Char}

theorem Follows.head? (h : Follows first rest) : ∀ c ∈ rest.head?, c = ',' := by
  rintro c hc
  rcases h with rfl | ⟨d, more, rfl, -⟩
  · cases hc
  · cases hc
    rfl

theorem Follows.ne_listed (h : Follows first rest) {s : String} (hs : BeginsWith first s)
    (behind : List Char) : rest ≠ listed [s] ++ behind := by
  obtain ⟨c, more, hlist, hfirst⟩ := hs.head
  rintro rfl
  rcases h with hnil | ⟨d, tail, heq, hd⟩
  · cases hnil
  · simp only [listed, List.flatMap_cons, List.flatMap_nil, hlist, List.cons_append,
      List.nil_append, List.append_nil, List.cons.injEq, true_and] at heq
    exact hd (heq.1 ▸ hfirst)

/-- Whether there is an item, and which, can be told if another cannot begin as it does. -/
theorem eq_and_eq_of_listed_eq (hitem : ∀ s ∈ item, BeginsWith first s)
    (hitem' : ∀ s ∈ item', BeginsWith first s) (hrest : Follows first rest)
    (hrest' : Follows first rest')
    (h : listed item.toList ++ rest = listed item'.toList ++ rest') :
    item = item' ∧ rest = rest' := by
  cases item with
  | none =>
    cases item' with
    | none => exact ⟨rfl, h⟩
    | some s' => exact absurd h (hrest.ne_listed (hitem' s' rfl) rest')
  | some s =>
    cases item' with
    | none => exact absurd h.symm (hrest'.ne_listed (hitem s rfl) rest)
    | some s' =>
      simp only [listed, Option.toList_some, List.flatMap_cons, List.flatMap_nil, List.append_nil,
        List.append_assoc, List.append_cancel_left_eq] at h
      obtain ⟨htexts, hsame⟩ := eq_and_eq_of_append_eq (hitem s rfl).comma (hitem' s' rfl).comma
        hrest.head? hrest'.head? h
      rw [String.toList_inj.1 htexts]
      exact ⟨rfl, hsame⟩

end Items

theorem toList_starText (name : String) :
    (starText name).toList = '*' :: [' ', 'a', 's', ' '] ++ name.toList := by
  rw [starText, String.toList_append]
  rfl

theorem beginsWith_star {name : String} (h : IsPlainName name) :
    BeginsWith (· = '*') (starText name) := by
  constructor
  · rw [toList_starText, List.mem_append]
    rintro (hmark | hname)
    · revert hmark
      decide
    · exact h.not_mem (by decide) hname
  · exact ⟨'*', _, toList_starText name, rfl⟩

theorem beginsWith_name {name : String} (h : IsPlainName name) :
    BeginsWith (fun c => isNameChar c = true) name := by
  refine ⟨h.not_mem (by decide), ?_⟩
  cases hname : name.toList with
  | nil => exact absurd hname h.toList_ne_nil
  | cons c more =>
    have hc := List.all_eq_true.1 h.unmarked c (by rw [hname]; exact List.mem_cons_self)
    exact ⟨c, more, rfl, hc⟩

namespace ModuleDeclaration

variable {default default' star star' : Option String} {names names' : List BracedName}

/-- The names in braces as an item, if there are any. -/
def bracesOf (names : List BracedName) : List String :=
  if names.isEmpty then [] else [bracedText names]

theorem itemsOf_eq (default star : Option String) (names : List BracedName) :
    itemsOf default star names =
      default.toList ++ ((star.map starText).toList ++ bracesOf names) :=
  List.append_assoc ..

theorem listed_braces (n : BracedName) (rest : List BracedName) :
    listed (bracesOf (n :: rest)) = ',' :: ' ' :: (bracedText (n :: rest)).toList := by
  simp [listed, bracesOf]

theorem follows_braces {first : Char → Prop} (h : ¬ first '\x7b') (names : List BracedName) :
    Follows first (listed (bracesOf names)) := by
  cases names with
  | nil => exact .inl rfl
  | cons n rest =>
    right
    exact ⟨'\x7b', _, by rw [listed_braces, toList_bracedText], h⟩

theorem follows_star {first : Char → Prop} (hstar : ¬ first '*') (hbraces : ¬ first '\x7b')
    (star : Option String) (names : List BracedName) :
    Follows first (listed ((star.map starText).toList ++ bracesOf names)) := by
  cases star with
  | none => exact follows_braces hbraces names
  | some name =>
    right
    refine ⟨'*', [' ', 'a', 's', ' '] ++ name.toList ++ listed (bracesOf names), ?_, hstar⟩
    simp [listed, toList_starText]

theorem eq_of_listed_braces_eq (hnames : ∀ n ∈ names, n.IsPlain)
    (hnames' : ∀ n ∈ names', n.IsPlain)
    (h : listed (bracesOf names) = listed (bracesOf names')) : names = names' := by
  cases names with
  | nil =>
    cases names' with
    | nil => rfl
    | cons n' rest' =>
      rw [listed_braces] at h
      cases h
  | cons n rest =>
    cases names' with
    | nil =>
      rw [listed_braces] at h
      cases h
    | cons n' rest' =>
      rw [listed_braces, listed_braces] at h
      have htexts := (List.cons.inj (List.cons.inj h).2).2
      exact eq_of_bracedText_eq hnames hnames' (String.toList_inj.1 htexts)

/-- The names that an import binds in each of its three places are plain. -/
structure HasPlainNames (default star : Option String) (names : List BracedName) : Prop where
  default : ∀ name ∈ default, IsPlainName name
  star : ∀ name ∈ star, IsPlainName name
  names : ∀ n ∈ names, n.IsPlain

/-- The items tell what is in each of the three places. -/
theorem eq_of_listed_eq (h : HasPlainNames default star names)
    (h' : HasPlainNames default' star' names')
    (heq : listed (itemsOf default star names) = listed (itemsOf default' star' names')) :
    default = default' ∧ star = star' ∧ names = names' := by
  have hstarText : ∀ {star : Option String}, (∀ name ∈ star, IsPlainName name) →
      ∀ s ∈ star.map starText, BeginsWith (· = '*') s := by
    intro star hstar s hs
    obtain ⟨name, hname, rfl⟩ := Option.map_eq_some_iff.1 hs
    exact beginsWith_star (hstar name hname)
  rw [itemsOf_eq, itemsOf_eq, listed_append default.toList, listed_append default'.toList] at heq
  obtain ⟨rfl, hstars⟩ := eq_and_eq_of_listed_eq
    (fun name hname => beginsWith_name (h.default name hname))
    (fun name hname => beginsWith_name (h'.default name hname))
    (follows_star (by decide) (by decide) star names)
    (follows_star (by decide) (by decide) star' names') heq
  rw [listed_append, listed_append] at hstars
  obtain ⟨hstar, hbraces⟩ := eq_and_eq_of_listed_eq (hstarText h.star) (hstarText h'.star)
    (follows_braces (by decide) names) (follows_braces (by decide) names') hstars
  refine ⟨rfl, ?_, eq_of_listed_braces_eq h.names h'.names hbraces⟩
  exact Option.map_injective (fun _ _ htext => by simpa [starText] using htext) hstar

/-- The text of an import tells its items. -/
theorem listed_eq_of_importText_eq {module : String} {items items' : List String}
    (h : importText module items = importText module items') : listed items = listed items' := by
  have hlength : ∀ (item : String) (rest : List String),
      (importText module (item :: rest)).length ≠ (importText module []).length := by
    intro item rest
    simp only [importText, List.isEmpty_cons, List.isEmpty_nil, if_true, Bool.false_eq_true,
      if_false, String.length_append]
    have hfrom : " from ".length = 6 := by decide
    omega
  have hbehind : ∀ (item : String) (rest : List String),
      listed (item :: rest) = ',' :: ' ' :: (", ".intercalate (item :: rest)).toList := by
    intro item rest
    rw [String.toList_intercalate, List.map_cons, Text.intercalate_cons, List.flatMap_map]
    rfl
  cases items with
  | nil =>
    cases items' with
    | nil => rfl
    | cons item' rest' => exact absurd (congrArg String.length h).symm (hlength item' rest')
  | cons item rest =>
    cases items' with
    | nil => exact absurd (congrArg String.length h) (hlength item rest)
    | cons item' rest' =>
      have hjoined : ", ".intercalate (item :: rest) = ", ".intercalate (item' :: rest') := by
        simpa only [importText, List.isEmpty_cons, Bool.false_eq_true, if_false,
          String.append_left_inj, String.append_right_inj] using h
      rw [hbehind, hbehind, hjoined]

/-- The text of an import tells what is in each of the three places. -/
theorem eq_of_importText_eq {module : String} (h : HasPlainNames default star names)
    (h' : HasPlainNames default' star' names')
    (heq : importText module (itemsOf default star names) =
      importText module (itemsOf default' star' names')) :
    default = default' ∧ star = star' ∧ names = names' :=
  eq_of_listed_eq h h' (listed_eq_of_importText_eq heq)

end ModuleDeclaration

/-! ### The bindings -/

/-- The names of a merged declaration are plain: those that the default and the namespace bind, and
those at the module and in the file of every binding in braces. -/
structure MergedBindings.HasPlainNames (m : MergedBindings) : Prop where
  default : ∀ b ∈ m.default, IsPlainName b.bound
  star : ∀ b ∈ m.star, IsPlainName b.bound
  named : ∀ b ∈ m.named, IsPlainName b.imported ∧ IsPlainName b.bound

theorem Binding.isPlain_bracedName {b : Binding} (himported : IsPlainName b.imported)
    (hbound : IsPlainName b.bound) : b.bracedName.IsPlain := by
  refine ⟨himported, ?_⟩
  intro other hother
  by_cases hname : b.imported = b.bound
  · simp [bracedName, hname] at hother
  · simp only [bracedName, if_neg hname, Option.mem_def, Option.some.injEq] at hother
    exact hother ▸ hbound

/-- A binding in braces can be told from its name in braces. -/
theorem Binding.eq_of_bracedName_eq {a b : Binding} (ha : a.bucket.hasOnePlace = false)
    (hb : b.bucket.hasOnePlace = false) (h : a.bracedName = b.bracedName) : a = b := by
  have htype : a.isTypeOnly = b.isTypeOnly := congrArg BracedName.typeOnly h
  have himported : a.imported = b.imported := congrArg BracedName.name h
  have hbound : a.bound = b.bound := by rw [← a.bound_bracedName, h, b.bound_bracedName]
  refine eq_of_key_eq ha hb ?_
  rw [key, key, htype, himported, hbound]

namespace ImportGroup

variable {g g' : ImportGroup}

theorem hasPlainNames_import (h : g.merged.HasPlainNames) :
    ModuleDeclaration.HasPlainNames (g.merged.default.map Binding.bound)
      (g.merged.star.map Binding.bound) (g.merged.named.map Binding.bracedName) := by
  constructor
  · intro name hname
    obtain ⟨b, hb, rfl⟩ := Option.map_eq_some_iff.1 hname
    exact h.default b hb
  · intro name hname
    obtain ⟨b, hb, rfl⟩ := Option.map_eq_some_iff.1 hname
    exact h.star b hb
  · intro n hn
    obtain ⟨b, hb, rfl⟩ := List.mem_map.1 hn
    exact b.isPlain_bracedName (h.named b hb).1 (h.named b hb).2

theorem eq_of_map_bracedName_eq
    (h : g.merged.named.map Binding.bracedName = g'.merged.named.map Binding.bracedName) :
    g.merged.named = g'.merged.named := by
  refine eq_of_map_eq ?_ h
  intro b hb b' hb' heq
  exact Binding.eq_of_bracedName_eq ((mem_namedBindings_iff g b).1 hb).2
    ((mem_namedBindings_iff g' b').1 hb').2 heq

/-- Two groups that write the module alike, and whose names are plain, merge into imports with one
text exactly if they have one default name, one name of a namespace and the same list of bindings
in braces, and into re-exports with one text exactly if these lists are the same.  A name may be
`type` or `as`.  Whether a merge is safe does not matter. -/
theorem rendering_unambiguous (g g' : ImportGroup) (hnames : g.merged.HasPlainNames)
    (hnames' : g'.merged.HasPlainNames) (hmodule : g.moduleText = g'.moduleText) :
    (g.renderImport g.merged = g'.renderImport g'.merged ↔
      g.merged.default.map Binding.bound = g'.merged.default.map Binding.bound ∧
      g.merged.star.map Binding.bound = g'.merged.star.map Binding.bound ∧
      g.merged.named = g'.merged.named) ∧
    (g.renderExport g.merged = g'.renderExport g'.merged ↔
      g.merged.named = g'.merged.named) := by
  have htext : ∀ g : ImportGroup, g.renderImport g.merged = ModuleDeclaration.importText
      g.moduleText (ModuleDeclaration.itemsOf (g.merged.default.map Binding.bound)
        (g.merged.star.map Binding.bound) (g.merged.named.map Binding.bracedName)) := by
    intro g
    rw [← importItems_eq]
    rfl
  have hplain := hasPlainNames_import hnames
  have hplain' := hasPlainNames_import hnames'
  constructor
  · rw [htext, htext, hmodule]
    constructor
    · intro heq
      obtain ⟨hdefault, hstar, hnamed⟩ := ModuleDeclaration.eq_of_importText_eq hplain hplain' heq
      exact ⟨hdefault, hstar, eq_of_map_bracedName_eq hnamed⟩
    · rintro ⟨hdefault, hstar, hnamed⟩
      rw [hdefault, hstar, hnamed]
  · rw [renderExport, renderExport, hmodule]
    constructor
    · intro heq
      simp only [String.append_left_inj, String.append_right_inj] at heq
      rw [← bracedText_named, ← bracedText_named] at heq
      exact eq_of_map_bracedName_eq (eq_of_bracedText_eq hplain.names hplain'.names heq)
    · intro hnamed
      rw [hnamed]

/-! ### A type named `as` -/

/-- An import of one name in braces. -/
def importOne (typed : Bool) (imported bound : String) : ImportGroup :=
  ⟨.imports, "m", ⟨default, none, [⟨default, .named, imported, bound, typed⟩], false⟩, []⟩

theorem bindings_importOne (typed : Bool) (imported bound : String) :
    (importOne typed imported bound).bindings =
      [⟨if typed then .typeOnly else .named, imported, bound⟩] := by
  cases typed <;> rfl

theorem named_importOne (typed : Bool) (imported bound : String) :
    (importOne typed imported bound).merged.named =
      [⟨if typed then .typeOnly else .named, imported, bound⟩] := by
  cases typed <;> simp [merged, namedBindings, bindings_importOne, List.eraseDups_cons]

theorem hasPlainNames_importOne (typed : Bool) {imported bound : String}
    (himported : IsPlainName imported) (hbound : IsPlainName bound) :
    (importOne typed imported bound).merged.HasPlainNames := by
  constructor
  · intro b hb
    cases typed <;> cases hb
  · intro b hb
    cases typed <;> cases hb
  · rw [named_importOne]
    intro b hb
    cases List.mem_singleton.1 hb
    exact ⟨himported, hbound⟩

/-- A type `as` that is known as `type` is told from a value `type` that is known as `as`. -/
theorem rendering_unambiguous_type_as :
    (importOne true "as" "type").merged.HasPlainNames ∧
      (importOne false "type" "as").merged.HasPlainNames ∧
      (importOne true "as" "type").moduleText = (importOne false "type" "as").moduleText ∧
      (importOne true "as" "type").renderImport (importOne true "as" "type").merged ≠
        (importOne false "type" "as").renderImport (importOne false "type" "as").merged := by
  have has : IsPlainName "as" := by decide
  have hname : IsPlainName "type" := by decide
  have htype := hasPlainNames_importOne true has hname
  have hvalue := hasPlainNames_importOne false hname has
  refine ⟨htype, hvalue, rfl, ?_⟩
  intro heq
  obtain ⟨-, -, hnamed⟩ := (rendering_unambiguous _ _ htype hvalue rfl).1.1 heq
  rw [named_importOne, named_importOne] at hnamed
  cases hnamed

end ImportGroup

end TsxLint
