import SymbolCache.Proofs.LegacyActions
import SymbolCache.Proofs.LegacyCode
import SymbolCache.Proofs.LegacyHeader
import SymbolCache.Proofs.LegacySections

/-! Objects that can be written so that reading gives them back. Every object that was read is one
of them, and so is what a filter leaves of it. -/

namespace SymbolCache.Legacy
open Lexical

/-- The last section of a kind; later sections overrule earlier ones. -/
def lastOf (kind : SectionKind) (parts : List Section) : Option Section :=
  (parts.filter fun part => part.kind = kind).getLast?

theorem mem_of_lastOf {kind : SectionKind} {parts : List Section} {part : Section} (last : lastOf kind parts = some part) :
    part ∈ parts ∧ part.kind = kind := by
  have chosen := List.mem_filter.1 (List.mem_of_getLast? last)
  exact ⟨chosen.1, of_decide_eq_true chosen.2⟩

theorem exists_lastOf {kind : SectionKind} {parts : List Section} {part : Section} (member : part ∈ parts)
    (same : part.kind = kind) : ∃ last, lastOf kind parts = some last := by
  have chosen : part ∈ parts.filter fun part => part.kind = kind := List.mem_filter.2 ⟨member, decide_eq_true same⟩
  exact ⟨_, List.getLast?_eq_some_getLast (List.ne_nil_of_mem chosen)⟩

theorem lastOf_map {kind : SectionKind} {rewrite : Section → Section} (same : ∀ part, (rewrite part).kind = part.kind)
    (parts : List Section) : lastOf kind (parts.map rewrite) = (lastOf kind parts).map rewrite := by
  unfold lastOf
  rw [List.filter_map, List.getLast?_map]
  simp only [Function.comp_def, same]

/-- What only sections of one kind say about an object, the last one of them says. -/
private theorem view_foldl_readSection {α : Type} {kind : SectionKind} {view : Object → α} {reading : Section → α}
    (reads : ∀ (object : Object) part,
      view (object.readSection part) = if part.kind = kind then reading part else view object)
    (parts : List Section) (object : Object) :
    view (parts.foldl Object.readSection object) = (lastOf kind parts).elim (view object) reading := by
  induction parts generalizing object with
  | nil => rfl
  | cons part parts ih =>
    rw [List.foldl_cons, ih, reads]
    by_cases same : part.kind = kind
    · rw [if_pos same, lastOf, lastOf, List.filter_cons_of_pos (by simpa using same), List.getLast?_cons]
      cases (parts.filter fun part => part.kind = kind).getLast? <;> rfl
    · rw [if_neg same, lastOf, lastOf, List.filter_cons_of_neg (by simpa using same)]

namespace Object

/-- What no section changes. -/
def frame (object : Object) : String × Int × String × List String × List Section × Option String :=
  (object.objectType, object.id, object.name, object.malformedSections, object.sections, object.unreadTail)

/-- What the sections say. -/
structure ReadFrom (object : Object) (parts : List Section) : Prop where
  objectProperties : object.objectProperties =
    (lastOf .objectProperties parts).elim [] fun part => (propertyList 0 part.inner.toList).1
  fields : object.fields = (lastOf .fields parts).elim [] fun part => readFields part.inner.toList
  controls : object.controls = (lastOf .controls parts).elim [] fun part => readControls part.inner.toList
  actions : object.actions = (lastOf .properties parts).elim [] fun part => readActions part.inner.toList
  code : (object.code, object.documentation) = (lastOf .code parts).elim (none, none) fun part =>
    (some (String.ofList (splitCode part.inner.toList).1), (splitCode part.inner.toList).2.map String.ofList)

private theorem frame_readSection (object : Object) (part : Section) : (object.readSection part).frame = object.frame := by
  unfold readSection
  cases part.kind <;> rfl

theorem frame_foldl_readSection (parts : List Section) (object : Object) :
    (parts.foldl readSection object).frame = object.frame := by
  induction parts generalizing object with
  | nil => rfl
  | cons part parts ih => rw [List.foldl_cons, ih, frame_readSection]

/-- An object about which nothing but its header is known. -/
structure Blank (object : Object) : Prop where
  objectProperties : object.objectProperties = []
  fields : object.fields = []
  controls : object.controls = []
  actions : object.actions = []
  code : (object.code, object.documentation) = (none, none)

theorem readFrom_foldl {object : Object} (blank : object.Blank) (parts : List Section) :
    ReadFrom (parts.foldl readSection object) parts where
  objectProperties := by
    have reads (object : Object) (part : Section) : (object.readSection part).objectProperties =
        if part.kind = .objectProperties then (propertyList 0 part.inner.toList).1 else object.objectProperties := by
      unfold readSection
      cases part.kind <;> rfl
    rw [← blank.objectProperties]
    exact view_foldl_readSection reads parts object
  fields := by
    have reads (object : Object) (part : Section) : (object.readSection part).fields =
        if part.kind = .fields then readFields part.inner.toList else object.fields := by
      unfold readSection
      cases part.kind <;> rfl
    rw [← blank.fields]
    exact view_foldl_readSection reads parts object
  controls := by
    have reads (object : Object) (part : Section) : (object.readSection part).controls =
        if part.kind = .controls then readControls part.inner.toList else object.controls := by
      unfold readSection
      cases part.kind <;> rfl
    rw [← blank.controls]
    exact view_foldl_readSection reads parts object
  actions := by
    have reads (object : Object) (part : Section) : (object.readSection part).actions =
        if part.kind = .properties then readActions part.inner.toList else object.actions := by
      unfold readSection
      cases part.kind <;> rfl
    rw [← blank.actions]
    exact view_foldl_readSection reads parts object
  code := by
    have reads (object : Object) (part : Section) :
        ((object.readSection part).code, (object.readSection part).documentation) =
          if part.kind = .code then (some (String.ofList (splitCode part.inner.toList).1),
            (splitCode part.inner.toList).2.map String.ofList) else (object.code, object.documentation) := by
      unfold readSection
      cases part.kind <;> rfl
    rw [← blank.code]
    exact @view_foldl_readSection _ _ (fun object => (object.code, object.documentation)) _ reads parts object

end Object

/-! Sections by their kinds. -/

private theorem toLower_toUpper (c : Char) : c.toUpper.toLower = c.toLower := by
  by_cases small : 'a'.val ≤ c.val ∧ c.val ≤ 'z'.val
  · have upper : c.toUpper.val = c.val + ('A'.val - 'a'.val) := by
      unfold Char.toUpper
      rw [dif_pos small]
    have bounds : 97 ≤ c.val.toNat ∧ c.val.toNat ≤ 122 := small
    have codes : 'A'.val.toNat = 65 ∧ 'Z'.val.toNat = 90 := ⟨rfl, rfl⟩
    have shifted : (c.val + ('A'.val - 'a'.val)).toNat = c.val.toNat - 32 := by
      rw [UInt32.toNat_add, show ('A'.val - 'a'.val).toNat = 4294967264 from rfl]
      omega
    have capital : c.toUpper.val ≥ 'A'.val ∧ c.toUpper.val ≤ 'Z'.val := by
      simp only [upper, ge_iff_le, UInt32.le_iff_toNat_le, shifted]
      omega
    have other : ¬ (c.val ≥ 'A'.val ∧ c.val ≤ 'Z'.val) := by
      simp only [ge_iff_le, UInt32.le_iff_toNat_le]
      omega
    have lowered : c.toUpper.toLower.val = c.toUpper.val + ('a'.val - 'A'.val) := by
      unfold Char.toLower
      rw [dif_pos capital]
    have kept : c.toLower = c := dif_neg other
    have back : 'A'.val - 'a'.val + ('a'.val - 'A'.val) = 0 := rfl
    rw [kept]
    ext
    rw [lowered, upper, UInt32.add_assoc, back, UInt32.add_zero]
  · exact congrArg Char.toLower (dif_neg small)

theorem sectionDialect_code {part : Section} (code : part.kind = .code) :
    sectionDialect part.keyword.toList = .legacyCode := by
  unfold Section.kind at code
  split at code
  case h_5 upper =>
    have letters : part.keyword.toList.map Char.toUpper = ['C', 'O', 'D', 'E'] := by
      rw [← String.toList_ofList (l := part.keyword.toList.map Char.toUpper), upper]
      rfl
    have lower := congrArg (List.map Char.toLower) letters
    simp only [List.map_map, Function.comp_def, toLower_toUpper] at lower
    exact if_pos (beq_iff_eq.2 lower)
  all_goals cases code

private theorem sectionDialect_of_length {keyword : List Char} (length : keyword.length ≠ 4) :
    sectionDialect keyword = .outline := by
  refine if_neg ?_
  intro same
  have lower := congrArg List.length (beq_iff_eq.1 same)
  rw [List.length_map] at lower
  exact length lower

theorem sectionDialect_records {part : Section}
    (records : part.kind = .fields ∨ part.kind = .controls ∨ part.kind = .properties) :
    sectionDialect part.keyword.toList = .outline := by
  have length {name : String} (upper : String.ofList (part.keyword.toList.map Char.toUpper) = name) :
      part.keyword.toList.length = name.length := by
    rw [← upper, String.length_ofList, List.length_map]
  unfold Section.kind at records
  split at records
  case h_2 upper | h_3 upper | h_4 upper =>
    apply sectionDialect_of_length
    rw [length upper]
    decide
  all_goals simp at records

namespace Object

/-- An object that can be written and read again. Records may be missing from it, but all that are
there come from the section that reading takes them from. -/
structure Printable (object : Object) : Prop where
  objectType : object.objectType.toList ≠ [] ∧ ∀ c ∈ object.objectType.toList, c.isAlpha = true
  id : ∃ number, number < Nat.pow 2 63 ∧ object.id = (number : Int)
  name : Text.Trimmed object.name.toList ∧ '\n' ∉ object.name.toList
  sections : ∀ part ∈ object.sections, part.Closed
  tail : StableTail object.malformedSections object.unreadTail
  objectProperties : object.objectProperties =
    (lastOf .objectProperties object.sections).elim [] fun part => (propertyList 0 part.inner.toList).1
  fields : ∀ field ∈ object.fields, ∃ part, lastOf .fields object.sections = some part ∧
    field ∈ readFields part.inner.toList
  controls : ∀ control ∈ object.controls, ∃ part, lastOf .controls object.sections = some part ∧
    control ∈ readControls part.inner.toList
  actions : ∀ action ∈ object.actions, ∃ part, lastOf .properties object.sections = some part ∧
    action ∈ readActions part.inner.toList
  code : (object.code, object.documentation) = (lastOf .code object.sections).elim (none, none) fun part =>
    (some (String.ofList (splitCode part.inner.toList).1), (splitCode part.inner.toList).2.map String.ofList)

private theorem exists_of_mem_elim {α : Type} {last : Option Section} {reading : Section → List α} {item : α}
    (member : item ∈ last.elim [] reading) : ∃ part, last = some part ∧ item ∈ reading part := by
  cases last with
  | none => cases member
  | some part => exact ⟨part, rfl, member⟩

private theorem exists_of_firstHeader? {lines following : List (List Char)} {header : Header}
    (first : firstHeader? lines = some (header, following)) :
    ∃ before line, lines = before ++ line :: following ∧ header? line = some header := by
  induction lines with
  | nil => cases first
  | cons line rest ih =>
    unfold firstHeader? at first
    split at first
    · rename_i found reads
      cases first
      exact ⟨[], line, rfl, reads⟩
    · obtain ⟨before, other, split, reads⟩ := ih first
      exact ⟨line :: before, other, by rw [split, List.cons_append], reads⟩

/-- An object with nothing but a header and its body. -/
def ofHeader (objectType : List Char) (id : Int) (name : List Char) (body : Body) : Object :=
  { objectType := String.ofList objectType, id
    name := String.ofList name
    objectProperties := [], properties := [], triggers := []
    fields := [], controls := [], actions := [], code := none, documentation := none
    malformedSections := body.malformed, sections := body.sections, unreadTail := body.unread }

/-- Fills in what the sections of a body say. -/
def ofBody (objectType : List Char) (id : Int) (name : List Char) (body : Body) : Object :=
  body.sections.foldl readSection (ofHeader objectType id name body)

theorem readFrom_ofBody (objectType : List Char) (id : Int) (name : List Char) (body : Body) :
    (ofBody objectType id name body).ReadFrom body.sections :=
  readFrom_foldl ⟨rfl, rfl, rfl, rfl, rfl⟩ body.sections

theorem frame_ofBody (objectType : List Char) (id : Int) (name : List Char) (body : Body) :
    (ofBody objectType id name body).frame =
      (String.ofList objectType, id, String.ofList name, body.malformed, body.sections, body.unread) :=
  frame_foldl_readSection body.sections _

private theorem joinLines_suffix (before : List (List Char)) (line : List Char) (following : List (List Char)) :
    joinLines following <:+ joinLines (before ++ line :: following) := by
  unfold joinLines
  induction before with
  | nil =>
    cases following with
    | nil => exact List.nil_suffix
    | cons next following =>
      rw [List.nil_append, List.intercalate_cons_cons]
      exact List.suffix_append ..
  | cons first before ih =>
    have longer : ∃ second rest, before ++ line :: following = second :: rest :=
      List.exists_cons_of_ne_nil (by simp)
    obtain ⟨second, rest, split⟩ := longer
    rw [split] at ih
    rw [List.cons_append, split, List.intercalate_cons_cons]
    exact ih.trans (List.suffix_append ..)

theorem exists_of_readObject? {text : List Char} {object : Object} (reads : readObject? text = some object) :
    ∃ line header id inside, '\n' ∉ line ∧ header? line = some header ∧ Text.readInt64? header.digits = some id ∧
      inside <:+ text ∧ object = ofBody header.objectType id (Text.trim header.name) (readSections inside) := by
  simp only [readObject?, Option.bind_eq_bind, Option.bind_eq_some_iff] at reads
  obtain ⟨⟨header, following⟩, first, id, number, same⟩ := reads
  obtain ⟨before, line, whole, lineReads⟩ := exists_of_firstHeader? first
  have unbroken := Text.not_mem_of_mem_splitAt (show line ∈ Text.splitAt '\n' text by simp [whole])
  cases cut : Text.cutAt? '{' (joinLines following) with
  | none =>
    have empty : readSections [] = ⟨[], [], none⟩ := readSections_of_end rfl
    refine ⟨line, header, id, [], unbroken, lineReads, number, List.nil_suffix, ?_⟩
    rw [empty]
    simp only [cut] at same
    exact (Option.some.inj same).symm
  | some parts =>
    have after : parts.2 <:+ joinLines following := by
      rw [Text.eq_of_cutAt? cut, List.append_cons]
      exact List.suffix_append ..
    have lines : joinLines following <:+ text := by
      have joined := joinLines_suffix before line following
      rwa [← whole, joinLines, joinLines, Text.intercalate_splitAt] at joined
    refine ⟨line, header, id, parts.2, unbroken, lineReads, number, after.trans lines, ?_⟩
    simp only [cut] at same
    exact (Option.some.inj same).symm

theorem printable_of_readObject? {text : List Char} {object : Object} (reads : readObject? text = some object)
    (named : object.name ≠ "") : object.Printable := by
  obtain ⟨line, header, id, inside, unbroken, lineReads, number, -, rfl⟩ := exists_of_readObject? reads
  obtain ⟨wellFormed, nameChars⟩ := wellFormed_of_header? lineReads
  obtain ⟨closed, tail⟩ := readSections_writable inside
  generalize readSections inside = body at closed tail named
  have frame := frame_ofBody header.objectType id (Text.trim header.name) body
  have parts := readFrom_ofBody header.objectType id (Text.trim header.name) body
  generalize ofBody header.objectType id (Text.trim header.name) body = object at frame parts named
  simp only [Object.frame, Prod.mk.injEq] at frame
  obtain ⟨type, sameId, name, malformed, sections, unread⟩ := frame
  rw [← sections] at parts closed
  rw [← malformed, ← unread] at tail
  have present : Text.trim header.name ≠ [] := by
    intro empty
    rw [empty] at name
    exact named name
  refine ⟨?_, ?_, ?_, closed, tail, parts.objectProperties, ?_, ?_, ?_, parts.code⟩
  · rw [type, String.toList_ofList]
    exact ⟨wellFormed.typePresent, wellFormed.typeLetters⟩
  · rw [sameId]
    exact Text.exists_of_readInt64? wellFormed.digitsPresent wellFormed.digits number
  · rw [name, String.toList_ofList]
    exact ⟨Text.trimmed_trim present, fun newline => unbroken (nameChars _ (Text.mem_of_mem_trim newline))⟩
  · intro field member
    rw [parts.fields] at member
    exact exists_of_mem_elim member
  · intro control member
    rw [parts.controls] at member
    exact exists_of_mem_elim member
  · intro action member
    rw [parts.actions] at member
    exact exists_of_mem_elim member

/-- A filter only takes records away. -/
theorem Printable.filterById {object : Object} (printable : object.Printable) (ranges : List IdRange) :
    (object.filterById ranges).Printable :=
  { printable with
    fields := fun field member => printable.fields field (List.mem_filter.1 member).1
    controls := fun control member => printable.controls control (List.mem_filter.1 member).1
    actions := fun action member => printable.actions action (List.mem_filter.1 member).1 }

end Object

end SymbolCache.Legacy
