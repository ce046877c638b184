import ChatMarkup.Files.Path

/-!
# Paths and what they lead to

A path of plain names leads down through the entry where it starts, so that to read it is to find
an entry inside that one. What is put at the end of such a path is found there, and nothing else is
changed. A path may also go back with dots; from the outermost folder it leads where it would lead
if it went straight.

Results:
* `Entry.find_put`, `Entry.find_put_of_find`: what is put at a path is found there, and other paths
  lead where they led.
* `Place.map_here_foldlM_step`: plain names lead through the entry where they start.
* `Place.read_pathOf`: to read a path of names is to find an entry and read its text.
* `Place.step_cases`: the steps that there are.
* `Place.foldlM_step_straightNames`: from the outermost folder, a path leads where its straight
  names lead.
-/

namespace ChatMarkup.Files

/-! ## Inside an entry -/

namespace Entry

/-- What names lead to inside an entry. -/
def find (entry : Entry) : List String → Except Failure Entry
  | [] => .ok entry
  | name :: names =>
    match entry with
    | file _ => .error .notAFolder
    | folder entries =>
      match entries.lookup name with
      | none => .error .notFound
      | some inner => inner.find names

theorem find_cons (entry : Entry) (name : String) (names : List String) :
    entry.find (name :: names) = (entry.find [name]).bind (·.find names) := by
  cases entry with
  | file bytes => rfl
  | folder entries =>
    rw [find, find]
    cases entries.lookup name with
    | none => rfl
    | some inner => rfl

/-- The text that an entry is, if it is a file with one. -/
def text : Entry → Except Failure String
  | folder _ => .error .isAFolder
  | file bytes =>
    match String.fromUTF8? bytes with
    | some text => .ok text
    | none => .error .notUnicode

/-- A file with the bytes of a text is that text. -/
theorem text_file_toUTF8 (s : String) : (file s.toUTF8).text = .ok s := by
  have hvalid : String.fromUTF8? s.toUTF8 = some s := dif_pos s.isValidUTF8
  rw [text, hvalid]

theorem lookup_others_of_ne {name other : String} (h : other ≠ name) (entry : Entry) :
    (entry.others name).lookup other = entry.child? other := by
  cases entry with
  | file bytes => rfl
  | folder entries =>
    show (entries.filter _).lookup other = entries.lookup other
    induction entries with
    | nil => rfl
    | cons first entries ih =>
      obtain ⟨n, inner⟩ := first
      by_cases hn : n = name
      · subst hn
        rw [List.filter_cons_of_neg (by simp), ih, List.lookup_cons, beq_false_of_ne h]
      · rw [List.filter_cons_of_pos (by simpa using hn), List.lookup_cons, List.lookup_cons, ih]

/-- **What is put at the end of a path is found there**, whatever was there before. -/
theorem find_put (entry new : Entry) (path : List String) :
    (entry.put path new).find path = .ok new := by
  unfold put
  induction path generalizing entry with
  | nil => rfl
  | cons name path ih =>
    rw [alter, find, List.lookup_cons_self]
    exact ih _

/-- **What is put at the end of a path leaves what other paths lead to**, as long as neither path
leads through the end of the other. -/
theorem find_put_of_find {entry new found : Entry} {path other : List String}
    (h : entry.find other = .ok found) (hpath : ¬ path <+: other) (hother : ¬ other <+: path) :
    (entry.put path new).find other = .ok found := by
  unfold put
  induction path generalizing entry other with
  | nil => exact absurd List.nil_prefix hpath
  | cons name path ih =>
    cases other with
    | nil => exact absurd List.nil_prefix hother
    | cons next other =>
      cases entry with
      | file bytes => cases h
      | folder entries =>
        rw [alter, find]
        by_cases hname : next = name
        · subst hname
          rw [List.lookup_cons_self]
          rw [find] at h
          show (((entries.lookup next).getD empty).alter _ path).find other = _
          cases hinner : entries.lookup next with
          | none =>
            rw [hinner] at h
            cases h
          | some inner =>
            rw [hinner] at h
            exact ih h (fun hprefix => hpath (List.cons_prefix_cons.2 ⟨rfl, hprefix⟩))
              fun hprefix => hother (List.cons_prefix_cons.2 ⟨rfl, hprefix⟩)
        · rw [List.lookup_cons, beq_false_of_ne hname]
          have hother := lookup_others_of_ne hname (folder entries)
          simp only [hother]
          exact h

end Entry

/-! ## Names and paths -/

/-- A name that leads one entry further: no dots that lead elsewhere, no mark that ends it, and not
too long. -/
structure IsName (name : String) : Prop where
  ne_empty : name ≠ ""
  ne_dot : name ≠ "."
  ne_dots : name ≠ ".."
  slash_notMem : '/' ∉ name.toList
  nul_notMem : '\x00' ∉ name.toList
  length_le : name.utf8ByteSize ≤ maxNameBytes

/-- The path through names. -/
def pathOf (names : List String) : String :=
  String.intercalate "/" names

/-- Names that make a path together. -/
structure IsPath (names : List String) : Prop where
  ne_nil : names ≠ []
  isName : ∀ name ∈ names, IsName name
  length_le : (pathOf names).utf8ByteSize ≤ maxPathBytes

theorem toList_pathOf (names : List String) :
    (pathOf names).toList = ['/'].intercalate (names.map String.toList) := by
  rw [pathOf, String.toList_intercalate]
  rfl

/-- The names of a path are those that it was made of. -/
theorem namesOf_pathOf {names : List String} (h : IsPath names) :
    namesOf (pathOf names) = names := by
  have hslash : ∀ cs ∈ names.map String.toList, '/' ∉ cs := by
    intro cs hcs
    obtain ⟨name, hname, rfl⟩ := List.mem_map.1 hcs
    exact (h.isName name hname).slash_notMem
  rw [namesOf, toList_pathOf, List.splitOn_intercalate '/' hslash (by simpa using h.ne_nil),
    List.map_map]
  simp

/-- A path begins with its first name. -/
theorem exists_pathOf_cons_eq_append (name : String) (names : List String) :
    ∃ rest, pathOf (name :: names) = name ++ rest := by
  cases names with
  | nil => exact ⟨"", by rw [pathOf, String.intercalate_singleton, String.append_empty]⟩
  | cons next names =>
    exact ⟨"/" ++ pathOf (next :: names), by
      rw [pathOf, String.intercalate_cons_of_ne_nil (List.cons_ne_nil next names),
        String.append_assoc, pathOf]⟩

theorem nul_notMem_pathOf {names : List String} (h : ∀ name ∈ names, IsName name) :
    '\x00' ∉ (pathOf names).toList := by
  induction names with
  | nil => exact List.not_mem_nil
  | cons name names ih =>
    rw [List.forall_mem_cons] at h
    cases names with
    | nil =>
      rw [pathOf, String.intercalate_singleton]
      exact h.1.nul_notMem
    | cons next names =>
      rw [pathOf, String.intercalate_cons_of_ne_nil (List.cons_ne_nil next names),
        String.toList_append, String.toList_append, List.mem_append, List.mem_append]
      rintro ((hname | hslash) | hrest)
      · exact h.1.nul_notMem hname
      · exact absurd hslash (by decide)
      · exact ih h.2 hrest

namespace Place

/-- One name leads one entry further, and the entry left is the innermost around. -/
theorem step_eq_map_find {name : String} (h : IsName name) (place : Place) :
    place.step name =
      (place.here.find [name]).map fun inner => ⟨inner, place.here :: place.around⟩ := by
  obtain ⟨here, around⟩ := place
  cases here with
  | file bytes => rfl
  | folder entries =>
    have hstay : ¬ (name = "." || name = "") = true := by simp [h.ne_dot, h.ne_empty]
    unfold step
    simp only [if_neg hstay, if_neg h.ne_dots, if_neg (Nat.not_lt.2 h.length_le), Entry.find]
    cases entries.lookup name with
    | none => rfl
    | some inner => rfl

/-- **Names that lead straight lead through the entry where they start.** -/
theorem map_here_foldlM_step {names : List String} (h : ∀ name ∈ names, IsName name)
    (place : Place) : (names.foldlM step place).map here = place.here.find names := by
  induction names generalizing place with
  | nil => rfl
  | cons name names ih =>
    rw [List.forall_mem_cons] at h
    rw [List.foldlM_cons, step_eq_map_find h.1, Entry.find_cons _ name names]
    cases place.here.find [name] with
    | error failure => rfl
    | ok inner => exact ih h.2 ⟨inner, place.here :: place.around⟩

/-- A path of names is followed name by name from where it starts. -/
theorem follow_pathOf {names : List String} (h : IsPath names) (place : Place) :
    place.follow (pathOf names) = names.foldlM step place := by
  obtain ⟨name, rest, rfl⟩ := List.exists_cons_of_ne_nil h.ne_nil
  obtain ⟨tail, htail⟩ := exists_pathOf_cons_eq_append name rest
  have hname := h.isName name List.mem_cons_self
  obtain ⟨c, cs, hcs⟩ := List.exists_cons_of_ne_nil
    (show name.toList ≠ [] by simpa using hname.ne_empty)
  have hlist : (pathOf (name :: rest)).toList = c :: (cs ++ tail.toList) := by
    rw [htail, String.toList_append, hcs, List.cons_append]
  have hempty : ¬ (pathOf (name :: rest)).isEmpty = true := by
    rw [String.isEmpty_iff, ← String.toList_inj, hlist]
    exact List.cons_ne_nil _ _
  have hslash : (pathOf (name :: rest)).toList.head? ≠ some '/' := by
    rw [hlist]
    rintro ⟨⟩
    exact hname.slash_notMem (hcs ▸ List.mem_cons_self)
  rw [follow, if_neg (nul_notMem_pathOf h.isName), if_neg hempty,
    if_neg (Nat.not_lt.2 h.length_le), if_neg hslash, namesOf_pathOf h]

/-- **To read a path of names is to find an entry and read its text.** -/
theorem read_pathOf {names : List String} (h : IsPath names) (place : Place) :
    place.read (pathOf names) = (place.here.find names).bind Entry.text := by
  rw [← map_here_foldlM_step h.isName, ← follow_pathOf h]
  unfold read
  cases place.follow (pathOf names) with
  | error failure => rfl
  | ok found =>
    obtain ⟨here, around⟩ := found
    cases here with
    | folder entries => rfl
    | file bytes => rfl

/-! ## Ways back -/

/-- The steps that there are: to stay, to go back, or to go on along a name. -/
theorem step_cases {place next : Place} {name : String} (h : place.step name = .ok next) :
    ((name = "." ∨ name = "") ∧ next = place) ∨ (name = ".." ∧ next = place.up) ∨
      ((name ≠ "" ∧ name ≠ "." ∧ name ≠ "..") ∧ next.up = place) := by
  obtain ⟨here, around⟩ := place
  unfold step at h
  cases here with
  | file bytes => cases h
  | folder entries =>
    by_cases hstay : name = "." ∨ name = ""
    · simp only [Bool.or_eq_true, decide_eq_true_eq, if_pos hstay] at h
      cases h
      exact .inl ⟨hstay, rfl⟩
    by_cases hback : name = ".."
    · simp only [Bool.or_eq_true, decide_eq_true_eq, if_neg hstay, if_pos hback] at h
      cases h
      exact .inr (.inl ⟨hback, rfl⟩)
    obtain ⟨hdot, hempty⟩ := not_or.1 hstay
    refine .inr (.inr ⟨⟨hempty, hdot, hback⟩, ?_⟩)
    simp only [Bool.or_eq_true, decide_eq_true_eq, if_neg hstay, if_neg hback] at h
    split at h
    · cases h
    · split at h
      · cases h
      · cases h
        rfl

/-- A straight way from the outermost folder to a place: no name of it is dots. -/
structure Straight (outermost place : Place) (names : List String) : Prop where
  leads : names.foldlM step outermost = .ok place
  no_dots : ∀ name ∈ names, name ≠ "" ∧ name ≠ "." ∧ name ≠ ".."

namespace Straight

variable {outermost place next : Place} {names : List String} {name : String}

theorem up (houtermost : outermost.around = []) (h : Straight outermost place names) :
    Straight outermost place.up names.dropLast := by
  rcases List.eq_nil_or_concat names with rfl | ⟨init, last, rfl⟩
  · obtain rfl : outermost = place := Except.ok.inj h.leads
    rw [Place.up, houtermost]
    exact h
  · rw [List.concat_eq_append] at h ⊢
    obtain ⟨hempty, hdot, hdots⟩ := h.no_dots last (List.mem_append_right init List.mem_cons_self)
    have hleads := h.leads
    rw [List.foldlM_append] at hleads
    cases hinit : init.foldlM Place.step outermost with
    | error failure =>
      rw [hinit] at hleads
      cases hleads
    | ok before =>
      have hstep : before.step last = .ok place := by
        rw [hinit] at hleads
        rw [← hleads]
        exact (bind_pure _).symm
      -- The last name was a step along, so two dots take it back.
      obtain ⟨hstay | hstay, -⟩ | ⟨hback, -⟩ | ⟨-, hup⟩ := step_cases hstep
      · exact absurd hstay hdot
      · exact absurd hstay hempty
      · exact absurd hback hdots
      · rw [hup, List.dropLast_concat]
        exact ⟨hinit, fun name hname => h.no_dots name (List.mem_append_left _ hname)⟩

/-- One more step of a way that may go back gives a straight way again. -/
theorem step (houtermost : outermost.around = []) (h : Straight outermost place names)
    (hstep : place.step name = .ok next) : Straight outermost next (straighten names name) := by
  unfold straighten
  obtain ⟨hstay, rfl⟩ | ⟨rfl, rfl⟩ | ⟨⟨hempty, hdot, hdots⟩, -⟩ := step_cases hstep
  · rw [if_pos (by simpa using hstay)]
    exact h
  · exact h.up houtermost
  · rw [if_neg (by simp [hempty, hdot]), if_neg hdots]
    constructor
    · rw [List.foldlM_append, h.leads]
      show (place.step name).bind _ = _
      rw [hstep]
      rfl
    · rw [List.forall_mem_append, List.forall_mem_singleton]
      exact ⟨h.no_dots, hempty, hdot, hdots⟩

/-- Any number of steps of a way that may go back give a straight way again. -/
theorem run (houtermost : outermost.around = []) (h : Straight outermost place names)
    {more : List String} (hmore : more.foldlM Place.step place = .ok next) :
    Straight outermost next (more.foldl straighten names) := by
  induction more generalizing place names with
  | nil =>
    obtain rfl : place = next := Except.ok.inj hmore
    exact h
  | cons name more ih =>
    rw [List.foldlM_cons] at hmore
    cases hstep : place.step name with
    | error failure =>
      rw [hstep] at hmore
      cases hmore
    | ok middle =>
      rw [hstep] at hmore
      exact ih (h.step houtermost hstep) hmore

end Straight

/-- **From the outermost folder, a path leads where its straight names lead.** -/
theorem foldlM_step_straightNames {place next : Place} (houtermost : place.around = [])
    {path : String} (h : place.follow path = .ok next) :
    (straightNames path).foldlM step place = .ok next := by
  have hroot : place.root = place := by
    rw [root, houtermost]
    rfl
  unfold follow at h
  split at h
  · cases h
  split at h
  · cases h
  split at h
  · cases h
  rw [hroot, ite_self] at h
  have hhere : Straight place place [] := ⟨rfl, nofun⟩
  exact (hhere.run houtermost h).leads

end Place

end ChatMarkup.Files
