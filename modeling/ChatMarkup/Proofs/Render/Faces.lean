import ChatMarkup.Proofs.Dialect.Faces
import ChatMarkup.Proofs.Message.SelfContained

/-!
# The faces of a document

A document says in which faces its text is to be shown: emphasis is italic, strong text and headings
are bold, and so on inward. What is written of a paragraph shows its letters in just these faces.
What is written of a heading does so unless strong text stands right in it. That text is shown in
all faces but bold, because the marks of strong text are those of the heading, and so the first of
them closes what the heading has opened.

Results:
* `shows_writeNode`: a node is shown in its faces if none of them is the innermost one already.
* `shows_inHeading`: how a part of a heading is shown.
* `letters_write_iff`: which paragraphs and headings are shown in their faces.
-/

namespace ChatMarkup

/-! ## Faces of nodes -/

/-- The face that a container gives to all that is inside it. -/
def Container.face? : Container → Option Face
  | .heading _ | .strong => some .bold
  | .emphasis => some .italic
  | .strikethrough => some .struck
  | _ => none

/-- The face that a node gives to all that is inside it. -/
def Node.face? : Node → Option Face
  | .leaf _ => none
  | .container c _ => c.face?

/-- What stands in front of the text of a container: the glyph of a heading and a space. -/
def Container.ornament (style : Style) : Container → String
  | .heading level =>
    match style.headingGlyphs.glyph? level with
    | some glyph => glyph ++ " "
    | none => ""
  | _ => ""

/-- The letters of a text inside faces. -/
def lettersOf (around : List Face) (s : String) : List Letter :=
  s.toList.map fun c => ⟨c, around.toFinset⟩

namespace Node

mutual

/-- The letters that a node is to show inside the faces `around`: its characters in order, each in
the faces of all containers around it. -/
def letters (style : Style) (around : List Face) : Node → List Letter
  | leaf l => lettersOf around l.plainText
  | container c children =>
    lettersOf (c.face?.toList ++ around) (c.ornament style) ++
      lettersAll style (c.face?.toList ++ around) children

/-- The letters that nodes are to show, one after the other. -/
def lettersAll (style : Style) (around : List Face) : List Node → List Letter
  | [] => []
  | node :: rest => node.letters style around ++ lettersAll style around rest

end

/-- Whether a node is text with marks or code, the parts of a line of text that have a face. -/
def isMarkedText : Node → Bool
  | leaf (.text _) => true
  | leaf (.inlineCode code) => !code.isEmpty
  | container .emphasis _ | container .strong _ | container .strikethrough _ => true
  | _ => false

mutual

/-- Whether no node has a face that a node around it, or one of the faces `around`, has already. -/
def facesApart (around : List Face) : Node → Bool
  | leaf _ => true
  | container c children =>
    c.face?.all (· ∉ around) && facesApartAll (c.face?.toList ++ around) children

/-- Whether no node of a list has a face that something around it has already. -/
def facesApartAll (around : List Face) : List Node → Bool
  | [] => true
  | node :: rest => node.facesApart around && facesApartAll around rest

end

end Node

open Node

variable {style : Style}

theorem lettersAll_eq_flatMap (around : List Face) (nodes : List Node) :
    lettersAll style around nodes = nodes.flatMap (letters style around) := by
  induction nodes with
  | nil => rfl
  | cons node rest ih => rw [lettersAll, ih, List.flatMap_cons]

theorem facesApartAll_iff {around : List Face} (nodes : List Node) :
    facesApartAll around nodes = true ↔ ∀ node ∈ nodes, node.facesApart around = true := by
  induction nodes with
  | nil => simp [facesApartAll]
  | cons node rest ih => simp [facesApartAll, ih]

/-- What it means for a container that all faces inside it are apart. -/
theorem facesApart_container {around : List Face} {c : Container} {children : List Node} :
    (container c children).facesApart around = true ↔
      (∀ face, c.face? = some face → face ∉ around) ∧
        ∀ child ∈ children, child.facesApart (c.face?.toList ++ around) = true := by
  rw [facesApart, Bool.and_eq_true, facesApartAll_iff, Option.all_eq_true]
  simp

theorem not_mem_of_facesApart {around : List Face} {node : Node} {face : Face}
    (h : node.facesApart around = true) (hface : node.face? = some face) : face ∉ around := by
  cases node with
  | leaf l => exact absurd hface nofun
  | container c children => exact (facesApart_container.1 h).1 face hface

/-! ## Nodes in lines of text -/

/-- Text with marks has a container only for a face. -/
theorem exists_face_of_isMarkedText {c : Container} {children : List Node}
    (h : (container c children).isMarkedText = true) :
    ∃ face, c.face? = some face ∧ (∀ style, c.ornament style = "") ∧
      standardRules.get? c.kind = some (Rule.marked (String.singleton face.mark)) := by
  cases c with
  | emphasis => exact ⟨.italic, rfl, fun _ => rfl, rfl⟩
  | strong => exact ⟨.bold, rfl, fun _ => rfl, rfl⟩
  | strikethrough => exact ⟨.struck, rfl, fun _ => rfl, rfl⟩
  | _ => exact absurd h nofun

theorem wellDelimited_of_isMarkedText (node : Node) (h : node.isMarkedText = true) :
    node.wellDelimited = true := by
  cases node with
  | leaf l =>
    cases l with
    | inlineCode code => exact h
    | html source => exact absurd h nofun
    | _ => rfl
  | container c children =>
    cases c with
    | table => exact absurd h nofun
    | _ => rfl

section Line

variable {r : Renderer} {around ancestors : List Face} {nodes : List Node}

theorem completes_writeNode (hr : r.Readable) {node : Node}
    (hn : node.everywhere isMarkedText = true) : Completes .text (r.writeNode node).toList :=
  completes_ruleClosed.writeNode hr node (everywhere_mono wellDelimited_of_isMarkedText node hn)

theorem readable_inline (hr : r.Readable) : (r.apply .inline).Readable :=
  completes_ruleClosed.standard_apply hr (RuleClosed.ofLayout_joined (by decide))

/-- Nodes with nothing between them show their letters one after the other. -/
theorem shows_write (hr : r.Readable) (hsep : r.separator = "") {f : Node → List Letter}
    (hn : ∀ node ∈ nodes, node.everywhere isMarkedText = true)
    (hf : ∀ node ∈ nodes, Shows around (lexemesOf (r.writeNode node)) (f node)) :
    Shows around (lexemesOf (r.write nodes)) (nodes.flatMap f) := by
  induction nodes with
  | nil => exact Shows.nil around
  | cons node rest ih =>
    have hrest := fun n hmem => hn n (List.mem_cons_of_mem node hmem)
    have hreadable : Completes .text (r.write rest).toList :=
      completes_ruleClosed.write hr fun n hmem =>
        everywhere_mono wellDelimited_of_isMarkedText n (hrest n hmem)
    rw [Renderer.write_cons_of_separator_eq hsep, List.flatMap_cons,
      lexemesOf_append (completes_writeNode hr (hn node List.mem_cons_self)) hreadable]
    exact (hf node List.mem_cons_self).append
      (ih hrest fun n hmem => hf n (List.mem_cons_of_mem node hmem))

theorem completes_write_inline (hr : r.Readable)
    (hn : ∀ node ∈ nodes, node.everywhere isMarkedText = true) :
    Completes .text ((r.apply .inline).write nodes).toList :=
  completes_ruleClosed.write (readable_inline hr) fun node hnode =>
    everywhere_mono wellDelimited_of_isMarkedText node (hn node hnode)

/-- What is written of a container with a face: its children between two marks. -/
theorem lexemesOf_writeNode_of_face (hr : r.Readable) {c : Container} (children : List Node)
    {face : Face} (hn : ∀ child ∈ children, child.everywhere isMarkedText = true)
    (hrule : standardRules.get? c.kind = some (Rule.marked (String.singleton face.mark))) :
    lexemesOf (r.writeNode (container c children)) =
      .bare .text face.mark ::
        (lexemesOf ((r.apply .inline).write children) ++ [.bare .text face.mark]) := by
  rw [Renderer.writeNode_eq, hr.1, Node.kind, hrule]
  exact lexemesOf_marked face (completes_write_inline hr hn)

end Line

/-- **A node is shown in its faces**, if its own is not the innermost of the open faces already. -/
theorem shows_writeNode {r : Renderer} (hr : r.Readable) {around ancestors : List Face}
    (node : Node) (hn : node.everywhere isMarkedText = true)
    (hapart : node.facesApart ancestors = true)
    (hne : ∀ face, node.face? = some face → around.head? ≠ some face) :
    Shows around (lexemesOf (r.writeNode node)) (node.letters style around) := by
  obtain ⟨hhere, hinside⟩ := (everywhere_iff node).1 hn
  cases node with
  | leaf l =>
    cases l with
    | text s =>
      rw [Renderer.writeNode_eq, hr.1]
      exact shows_text around s
    | inlineCode code =>
      have hcode : code ≠ "" := by simpa [isMarkedText] using hhere
      rw [Renderer.writeNode_eq, hr.1]
      exact shows_codeSpan around hcode
    | _ => exact absurd hhere nofun
  | container c children =>
    obtain ⟨face, hface, hornament, hrule⟩ := exists_face_of_isMarkedText hhere
    obtain ⟨-, hparts⟩ := facesApart_container.1 hapart
    have hchildren : Shows (face :: around) (lexemesOf ((r.apply .inline).write children))
        (children.flatMap (letters style (face :: around))) := by
      refine shows_write (readable_inline hr) rfl hinside fun child hchild => ?_
      have hsmaller : sizeOf child < sizeOf (container c children) :=
        sizeOf_lt_of_mem_children hchild
      refine shows_writeNode (readable_inline hr) child (hinside child hchild)
        (hparts child hchild) fun other hother hsame => ?_
      -- the innermost face is that of this node, and no part of it has the same
      refine not_mem_of_facesApart (hparts child hchild) hother ?_
      rw [hface, ← Option.some.inj hsame]
      exact List.mem_cons_self
    have hletters : (container c children).letters style around =
        children.flatMap (letters style (face :: around)) := by
      rw [letters, hornament, hface, lettersAll_eq_flatMap]
      rfl
    rw [hletters, lexemesOf_writeNode_of_face hr children hinside hrule]
    exact hchildren.marked (hne face hface)
termination_by sizeOf node

/-! ## The letters of a node -/

theorem chars_lettersOf (around : List Face) (s : String) :
    (lettersOf around s).map Letter.char = s.toList := by
  simp [lettersOf, Function.comp_def]

theorem chars_lettersAll {around : List Face} {nodes : List Node}
    (h : ∀ node ∈ nodes, (node.letters style around).map Letter.char = node.plainText.toList) :
    (lettersAll style around nodes).map Letter.char = (plainTexts nodes).toList := by
  induction nodes with
  | nil => rfl
  | cons node rest ih =>
    rw [lettersAll, plainTexts, List.map_append, String.toList_append, h node List.mem_cons_self,
      ih fun n hn => h n (List.mem_cons_of_mem node hn)]

/-- The letters of a text with marks are its characters. -/
theorem chars_letters (style : Style) (around : List Face) (node : Node)
    (hn : node.everywhere isMarkedText = true) :
    (node.letters style around).map Letter.char = node.plainText.toList := by
  obtain ⟨hhere, hinside⟩ := (everywhere_iff node).1 hn
  cases node with
  | leaf l => exact chars_lettersOf around l.plainText
  | container c children =>
    obtain ⟨face, -, hornament, -⟩ := exists_face_of_isMarkedText hhere
    rw [letters, hornament, plainText]
    refine chars_lettersAll fun child hchild => ?_
    have hsmaller : sizeOf child < sizeOf (container c children) :=
      sizeOf_lt_of_mem_children hchild
    exact chars_letters style _ child (hinside child hchild)
termination_by sizeOf node

theorem mem_faces_of_mem_lettersOf {around : List Face} {s : String} {letter : Letter}
    (h : letter ∈ lettersOf around s) (face : Face) : face ∈ letter.faces ↔ face ∈ around := by
  obtain ⟨c, -, rfl⟩ := List.mem_map.1 h
  exact List.mem_toFinset

/-- All letters of a node have the faces around it. -/
theorem mem_faces_of_mem_around {around : List Face} {face : Face} (hface : face ∈ around)
    (node : Node) : ∀ letter ∈ node.letters style around, face ∈ letter.faces := by
  intro letter hletter
  cases node with
  | leaf l => exact (mem_faces_of_mem_lettersOf hletter face).2 hface
  | container c children =>
    have hinside : face ∈ c.face?.toList ++ around := List.mem_append_right _ hface
    rw [letters, lettersAll_eq_flatMap] at hletter
    rcases List.mem_append.1 hletter with hmem | hmem
    · exact (mem_faces_of_mem_lettersOf hmem face).2 hinside
    · obtain ⟨child, hchild, hmem⟩ := List.mem_flatMap.1 hmem
      have hsmaller : sizeOf child < sizeOf (container c children) :=
        sizeOf_lt_of_mem_children hchild
      exact mem_faces_of_mem_around hinside child letter hmem
termination_by sizeOf node

/-- Where a face would be doubled, no letter has it of its own. -/
theorem not_mem_faces_of_facesApart {around ancestors : List Face} {face : Face}
    (haround : face ∉ around) (hface : face ∈ ancestors) (node : Node)
    (hapart : node.facesApart ancestors = true) :
    ∀ letter ∈ node.letters style around, face ∉ letter.faces := by
  intro letter hletter
  cases node with
  | leaf l => exact fun hmem => haround ((mem_faces_of_mem_lettersOf hletter face).1 hmem)
  | container c children =>
    obtain ⟨hown, hparts⟩ := facesApart_container.1 hapart
    have hinside : face ∉ c.face?.toList ++ around := by
      intro hmem
      rcases List.mem_append.1 hmem with hmem | hmem
      · exact hown face (Option.mem_toList.1 hmem) hface
      · exact haround hmem
    rw [letters, lettersAll_eq_flatMap] at hletter
    rcases List.mem_append.1 hletter with hmem | hmem
    · exact fun hfaces => hinside ((mem_faces_of_mem_lettersOf hmem face).1 hfaces)
    · obtain ⟨child, hchild, hmem⟩ := List.mem_flatMap.1 hmem
      have hsmaller : sizeOf child < sizeOf (container c children) :=
        sizeOf_lt_of_mem_children hchild
      exact not_mem_faces_of_facesApart hinside (List.mem_append_right _ hface) child
        (hparts child hchild) letter hmem
termination_by sizeOf node

/-! ## Headings -/

/-- The letters that a part of a heading shows. Strong text is shown without the face of the
heading, which is its own. -/
def Node.lettersInHeading (style : Style) : Node → List Letter
  | .container .strong children => lettersAll style [] children
  | node => node.letters style [.bold]

theorem exists_eq_strong {node : Node} (h : node.kind = .strong) :
    ∃ children, node = .container .strong children := by
  cases node with
  | leaf l => cases l <;> exact absurd h nofun
  | container c children =>
    cases c with
    | strong => exact ⟨children, rfl⟩
    | _ => exact absurd h nofun

theorem kind_of_face?_bold {node : Node} (hn : node.isMarkedText = true)
    (h : node.face? = some .bold) : node.kind = .strong := by
  cases node with
  | leaf l => exact absurd h nofun
  | container c children =>
    cases c with
    | strong => rfl
    | heading level => exact absurd hn nofun
    | _ => exact absurd h nofun

section Heading

variable {r : Renderer} {node : Node} {children : List Node}

/-- **How a part of a heading is shown.** -/
theorem shows_inHeading (hr : r.Readable) (hn : node.everywhere isMarkedText = true)
    (hapart : node.facesApart [] = true) :
    Shows [.bold] (lexemesOf (r.writeNode node)) (node.lettersInHeading style) := by
  unfold Node.lettersInHeading
  split
  · rename_i children
    obtain ⟨-, hinside⟩ := (everywhere_iff _).1 hn
    obtain ⟨-, hparts⟩ := facesApart_container.1 hapart
    have hchildren : Shows [] (lexemesOf ((r.apply .inline).write children))
        (children.flatMap (letters style [])) :=
      shows_write (readable_inline hr) rfl hinside fun child hchild =>
        shows_writeNode (readable_inline hr) child (hinside child hchild) (hparts child hchild)
          nofun
    have hrule : standardRules.get? Container.strong.kind =
        some (Rule.marked (String.singleton Face.bold.mark)) := rfl
    rw [lettersAll_eq_flatMap, lexemesOf_writeNode_of_face hr children hinside hrule]
    exact hchildren.unmarked nofun
  · rename_i hother
    refine shows_writeNode hr node hn hapart fun face hface hbold => ?_
    obtain rfl := Option.some.inj hbold
    have hkind := kind_of_face?_bold ((everywhere_iff _).1 hn).1 hface
    obtain ⟨children, rfl⟩ := exists_eq_strong hkind
    exact hother children rfl

theorem chars_lettersInHeading (style : Style) (hn : node.everywhere isMarkedText = true) :
    (node.lettersInHeading style).map Letter.char = node.plainText.toList := by
  unfold Node.lettersInHeading
  split
  · rename_i children
    obtain ⟨-, hinside⟩ := (everywhere_iff _).1 hn
    exact chars_lettersAll fun child hchild =>
      chars_letters style [] child (hinside child hchild)
  · exact chars_letters style [.bold] node hn

/-- **A part of a heading is shown in its faces** unless it is strong text with something to
show. -/
theorem lettersInHeading_eq_iff (hn : node.everywhere isMarkedText = true)
    (hapart : node.facesApart [] = true) :
    node.lettersInHeading style = node.letters style [.bold] ↔
      (node.kind = .strong → node.plainText = "") := by
  constructor
  · intro heq hkind
    obtain ⟨children, rfl⟩ := exists_eq_strong hkind
    by_contra hne
    -- some letter is shown, on the one side without the bold face and on the other with it
    have hsome : (container .strong children).lettersInHeading style ≠ [] := by
      intro hnil
      have hchars := chars_lettersInHeading style hn
      rw [hnil] at hchars
      exact hne (by simpa using hchars.symm)
    obtain ⟨letter, hletter⟩ := List.exists_mem_of_ne_nil _ hsome
    have hbold := mem_faces_of_mem_around List.mem_cons_self _ letter (heq ▸ hletter)
    rw [Node.lettersInHeading, lettersAll_eq_flatMap] at hletter
    obtain ⟨child, hchild, hmem⟩ := List.mem_flatMap.1 hletter
    have hparts := (facesApart_container.1 hapart).2 child hchild
    exact not_mem_faces_of_facesApart List.not_mem_nil List.mem_cons_self child hparts letter hmem
      hbold
  · intro hempty
    by_cases hkind : node.kind = .strong
    · have hleft := chars_lettersInHeading style hn
      have hright := chars_letters style [.bold] node hn
      rw [hempty hkind] at hleft hright
      rw [List.map_eq_nil_iff.1 hleft, List.map_eq_nil_iff.1 hright]
    · unfold Node.lettersInHeading
      split
      · exact absurd rfl hkind
      · rfl

/-- Lists made of pieces that are pairwise of one length are equal iff the pieces are. -/
theorem flatMap_eq_flatMap_iff {α β : Type} {f g : α → List β} {xs : List α}
    (h : ∀ x ∈ xs, (f x).length = (g x).length) :
    xs.flatMap f = xs.flatMap g ↔ ∀ x ∈ xs, f x = g x := by
  induction xs with
  | nil => simp
  | cons x xs ih =>
    have hxs := ih fun y hy => h y (List.mem_cons_of_mem x hy)
    rw [List.flatMap_cons, List.flatMap_cons, List.forall_mem_cons, ← hxs]
    constructor
    · exact fun heq => List.append_inj heq (h x List.mem_cons_self)
    · exact fun ⟨hfirst, hrest⟩ => by rw [hfirst, hrest]

/-! ## Paragraphs and headings -/

/-- Whether a container is a block that is one line of text. -/
def Container.isLine : Container → Bool
  | .paragraph | .heading _ => true
  | _ => false

theorem headingText_eq (style : Style) (level : Nat) (s : String) :
    Rule.headingText style level s =
      String.singleton Face.bold.mark ++
        (Grammar.text.escape ((Container.heading level).ornament style) ++ s) ++
        String.singleton Face.bold.mark := by
  have hspace : Grammar.text.escape " " = " " := by decide
  have hnone : Grammar.text.escape "" = "" := rfl
  unfold Rule.headingText Container.ornament
  split
  · rename_i glyph hglyph
    simp only [hglyph, Grammar.escape_append, hspace, String.append_assoc]
    rfl
  · rename_i hglyph
    simp only [hglyph, hnone, String.empty_append]
    rfl

theorem shows_paragraph (style : Style) (hr : r.Readable)
    (hn : ∀ child ∈ children, child.everywhere isMarkedText = true)
    (hapart : ∀ child ∈ children, child.facesApart [] = true) :
    Shows [] (lexemesOf (r.writeNode (.container .paragraph children)))
      (children.flatMap (letters style [])) := by
  rw [Renderer.writeNode_eq, hr.1]
  exact shows_write (readable_inline hr) rfl hn fun child hchild =>
    shows_writeNode (readable_inline hr) child (hn child hchild) (hapart child hchild) nofun

theorem shows_heading (style : Style) (hr : r.Readable) (level : Nat)
    (hn : ∀ child ∈ children, child.everywhere isMarkedText = true)
    (hapart : ∀ child ∈ children, child.facesApart [] = true) :
    Shows [] (lexemesOf (r.writeNode (.container (.heading level) children)))
      (lettersOf [.bold] ((Container.heading level).ornament r.style) ++
        children.flatMap (lettersInHeading style)) := by
  have hwritten : r.writeNode (.container (.heading level) children) =
      Rule.headingText r.style level ((r.apply .inline).write children) := by
    rw [Renderer.writeNode_eq, hr.1]
    rfl
  have hornament := completes_escape_text ((Container.heading level).ornament r.style)
  have hchildren := completes_write_inline hr hn
  have hreadable : Completes .text (Grammar.text.escape
      ((Container.heading level).ornament r.style) ++ (r.apply .inline).write children).toList := by
    rw [String.toList_append]
    exact hornament.append hchildren
  rw [hwritten, headingText_eq, lexemesOf_marked .bold hreadable,
    lexemesOf_append hornament hchildren]
  refine Shows.marked nofun ((shows_text _ _).append ?_)
  exact shows_write (readable_inline hr) rfl hn fun child hchild =>
    shows_inHeading (readable_inline hr) (hn child hchild) (hapart child hchild)

end Heading

/-- **Paragraphs are shown in their faces, and so are headings without strong text right in them.**
For all lines of text in which no face is inside the same face, and all styles: a reader takes in
all of what is written, and sees the characters of the line in order, each in the faces of the nodes
around it, with the glyph of a heading in bold before them. Only strong text right in a heading that
shows anything is seen in other faces than it should. -/
theorem letters_write_iff (style : Style) {c : Container} (hc : c.isLine = true)
    {children : List Node} (hn : ∀ child ∈ children, child.everywhere isMarkedText = true)
    (hapart : ∀ child ∈ children, child.facesApart [] = true) :
    ∃ lexemes,
      read .text ((Renderer.top style standardRules).write [.container c children]).toList =
        some ⟨lexemes, .text⟩ ∧
      (lettersFrom [] lexemes = (Node.container c children).letters style [] ↔
        (c.kind = .heading → ∀ child ∈ children, child.kind = .strong → child.plainText = "")) := by
  have hr : (Renderer.top style standardRules).Readable := completes_ruleClosed.standard_top style
  have hwell : (Node.container c children).everywhere wellDelimited = true := by
    refine (everywhere_iff _).2 ⟨?_, fun child hchild =>
      everywhere_mono wellDelimited_of_isMarkedText child (hn child hchild)⟩
    cases c with
    | table => cases hc
    | _ => rfl
  have hread := read_of_completes (completes_ruleClosed.writeNode hr _ hwell)
  rw [Renderer.write_singleton]
  refine ⟨_, hread, ?_⟩
  cases c with
  | paragraph =>
    have hletters := (shows_paragraph style hr hn hapart).letters_eq
    rw [lexemesOf] at hletters
    rw [hletters, letters, lettersAll_eq_flatMap]
    simp [Container.face?, Container.ornament, lettersOf, Container.kind]
  | heading level =>
    have hletters := (shows_heading style hr level hn hapart).letters_eq
    have hlength : ∀ child ∈ children, (child.lettersInHeading style).length =
        (child.letters style [.bold]).length := fun child hchild => by
      rw [← List.length_map (f := Letter.char), chars_lettersInHeading style (hn child hchild),
        ← chars_letters style [.bold] child (hn child hchild), List.length_map]
    have hparts : children.flatMap (lettersInHeading style) =
        children.flatMap (letters style [.bold]) ↔
          ∀ child ∈ children, child.kind = .strong → child.plainText = "" := by
      rw [flatMap_eq_flatMap_iff hlength]
      exact forall₂_congr fun child hchild =>
        lettersInHeading_eq_iff (hn child hchild) (hapart child hchild)
    rw [lexemesOf] at hletters
    rw [hletters, letters, lettersAll_eq_flatMap]
    exact (List.append_right_inj _).trans (hparts.trans ⟨fun h _ => h, fun h => h rfl⟩)
  | _ => cases hc

/-- A heading with a glyph, code that is spelled with marks, and strong text, but only inside
emphasis. -/
theorem letters_write_iff_emphasis :
    let strong : Node := .container .strong [.text "b_"]
    let children : List Node :=
      [.text "a*", .container .emphasis [strong, .leaf (.inlineCode "*\x60")],
        .container .strikethrough []]
    ((∀ child ∈ children, child.everywhere isMarkedText = true) ∧
        ∀ child ∈ children, child.facesApart [] = true) ∧
      ∃ lexemes,
        read .text ((Renderer.top {} standardRules).write
          [.container (.heading 2) children]).toList = some ⟨lexemes, .text⟩ ∧
        (lettersFrom [] lexemes = (Node.container (.heading 2) children).letters {} [] ↔
          ((Container.heading 2).kind = .heading →
            ∀ child ∈ children, child.kind = .strong → child.plainText = "")) := by
  intro strong children
  have hn : ∀ child ∈ children, child.everywhere isMarkedText = true := by decide
  have hapart : ∀ child ∈ children, child.facesApart [] = true := by decide
  exact ⟨⟨hn, hapart⟩, letters_write_iff {} rfl hn hapart⟩

/-- **Strong text right in a heading is not shown in bold**: its marks close the face of the heading
and open it again. -/
theorem heading_letters_ne_of_strong :
    let child : Node := .container .strong [.text "x"]
    let heading : Node := .container (.heading 1) [child]
    let message := (Renderer.top {} standardRules).write [heading]
    child.everywhere isMarkedText = true ∧ child.facesApart [] = true ∧ message = "*📌 *x**" ∧
      lettersFrom [] (lexemesOf message) =
        [⟨'📌', [.bold].toFinset⟩, ⟨' ', [.bold].toFinset⟩, ⟨'x', ∅⟩] ∧
      lettersFrom [] (lexemesOf message) ≠ heading.letters {} [] := by
  decide +kernel

end ChatMarkup
