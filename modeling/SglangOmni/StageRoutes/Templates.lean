import Mathlib.Data.List.DropRight

/-! Route ownership in `serve/stage_routes.py`: the path templates that a prefix reaches, and the
prefixes of `normalize_route_prefixes`. -/

namespace StageRoutes.Templates

abbrev Text := List Char

/-! ### Starlette's templates -/

inductive Piece where
  | text (c : Char)
  | param (convertor : Text)
deriving DecidableEq

def strName : Text := ['s', 't', 'r']

def pathName : Text := ['p', 'a', 't', 'h']

structure Convertors where
  accepts : Text → Text → Bool
  str : ∀ value, accepts strName value = true ↔ value ≠ [] ∧ '/' ∉ value
  path : ∀ value, accepts pathName value = true
  segment : ∀ name value, name ≠ pathName → accepts name value = true → '/' ∉ value

def isNameStart (c : Char) : Bool := c.isAlpha || c == '_'

def isNameChar (c : Char) : Bool := isNameStart c || c.isDigit

def readName : Text → Option (Text × Text)
  | c :: rest =>
    if isNameStart c then some (c :: rest.takeWhile isNameChar, rest.dropWhile isNameChar) else none
  | [] => none

def closeParam : Text → Option Text
  | c :: rest => if c == '}' then some rest else none
  | [] => none

/-- The convertor's name behind the name of a parameter, and what follows the parameter. -/
def readConvertor : Text → Option (Text × Text)
  | c :: rest =>
    if c == ':' then (readName rest).bind fun read => (closeParam read.2).map (Prod.mk read.1)
    else (closeParam (c :: rest)).map (Prod.mk strName)
  | [] => none

/-- The convertor's name of a parameter at the head of a text, and what follows it. -/
def readParam : Text → Option (Text × Text)
  | c :: rest => if c == '{' then (readName rest).bind fun read => readConvertor read.2 else none
  | [] => none

theorem readName_cons (c : Char) (rest : Text) : readName (c :: rest) =
    if isNameStart c then some (c :: rest.takeWhile isNameChar, rest.dropWhile isNameChar) else none := rfl

theorem closeParam_cons (c : Char) (rest : Text) : closeParam (c :: rest) = if c == '}' then some rest else none := rfl

theorem readConvertor_cons (c : Char) (rest : Text) : readConvertor (c :: rest) =
    if c == ':' then (readName rest).bind fun read => (closeParam read.2).map (Prod.mk read.1)
    else (closeParam (c :: rest)).map (Prod.mk strName) := rfl

theorem readParam_cons (c : Char) (rest : Text) : readParam (c :: rest) =
    if c == '{' then (readName rest).bind fun read => readConvertor read.2 else none := rfl

theorem readName_suffix {text name rest : Text} (h : readName text = some (name, rest)) : rest <:+ text := by
  cases text with
  | nil => cases h
  | cons c text =>
    rw [readName_cons] at h
    split at h
    · cases h
      exact (List.dropWhile_suffix _).trans (List.suffix_cons c text)
    · cases h

theorem closeParam_suffix {text rest : Text} (h : closeParam text = some rest) : rest <:+ text := by
  cases text with
  | nil => cases h
  | cons c text =>
    rw [closeParam_cons] at h
    split at h
    · cases h
      exact List.suffix_cons _ _
    · cases h

theorem readConvertor_suffix {text convertor rest : Text} (h : readConvertor text = some (convertor, rest)) :
    rest <:+ text := by
  cases text with
  | nil => cases h
  | cons c text =>
    rw [readConvertor_cons] at h
    split at h
    · obtain ⟨⟨name, behind⟩, hname, hclose⟩ := Option.bind_eq_some_iff.mp h
      obtain ⟨_, hclose, heq⟩ := Option.map_eq_some_iff.mp hclose
      cases heq
      exact ((closeParam_suffix hclose).trans (readName_suffix hname)).trans (List.suffix_cons c text)
    · obtain ⟨_, hclose, heq⟩ := Option.map_eq_some_iff.mp h
      cases heq
      exact closeParam_suffix hclose

theorem readParam_suffix {c : Char} {text convertor rest : Text} (h : readParam (c :: text) = some (convertor, rest)) :
    rest <:+ text := by
  rw [readParam_cons] at h
  split at h
  · obtain ⟨⟨name, behind⟩, hname, hconvertor⟩ := Option.bind_eq_some_iff.mp h
    exact (readConvertor_suffix hconvertor).trans (readName_suffix hname)
  · cases h

/-- The pieces of a template, with the parameters that `PARAM_REGEX` finds. -/
def compilePath (template : Text) : List Piece :=
  match template with
  | [] => []
  | c :: rest =>
    match _h : readParam (c :: rest) with
    | some (convertor, after) => .param convertor :: compilePath after
    | none => .text c :: compilePath rest
termination_by template.length
decreasing_by
  · exact Nat.lt_succ_of_le (readParam_suffix _h).length_le
  · exact Nat.lt_succ_self _

section Match

variable (C : Convertors)

/-- Whether a whole text is the literal characters and values of the pieces. -/
def fullMatch : List Piece → Text → Bool
  | [], text => text.isEmpty
  | .text _ :: _, [] => false
  | .text c :: pieces, a :: text => c == a && fullMatch pieces text
  | .param convertor :: pieces, text =>
    (List.range (text.length + 1)).any fun n => C.accepts convertor (text.take n) && fullMatch pieces (text.drop n)

end Match

/-! ### Prefixes and templates -/

def covers (routePrefix path : Text) : Bool := path == routePrefix || (routePrefix ++ ['/']).isPrefixOf path

def isPathParam (piece : Piece) : Bool := piece == .param pathName

/-- `template_reaches` from a segment of the template and one of the prefix on. -/
def segmentsReach (C : Convertors) : List Text → List Text → Bool
  | _, [] => true
  | [], _ :: _ => false
  | templateSegment :: templateSegments, segment :: segments =>
    let pieces := compilePath ('/' :: templateSegment)
    if pieces.any isPathParam then (templateSegment.takeWhile (· != '{')).isPrefixOf segment
    else if fullMatch C pieces ('/' :: segment) then segmentsReach C templateSegments segments
    else false

def templateReaches (C : Convertors) (template routePrefix : Text) : Bool :=
  segmentsReach C (template.splitOn '/').tail (routePrefix.splitOn '/').tail

/-! ### The pieces of a text with a slash -/

section Compile

variable {text after : Text} {c : Char}

theorem readName_append_slash (text after : Text) :
    readName (text ++ '/' :: after) = (readName text).map fun read => (read.1, read.2 ++ '/' :: after) := by
  cases text with
  | nil => rfl
  | cons c text =>
    have htake : (text ++ '/' :: after).takeWhile isNameChar = text.takeWhile isNameChar := by
      rw [List.takeWhile_append]
      split
      · next hlength =>
        rw [(List.takeWhile_prefix isNameChar).eq_of_length hlength]
        exact List.append_nil text
      · rfl
    have hdrop : (text ++ '/' :: after).dropWhile isNameChar = text.dropWhile isNameChar ++ '/' :: after := by
      rw [List.dropWhile_append]
      split
      · next hempty =>
        rw [List.isEmpty_iff.mp hempty]
        rfl
      · rfl
    rw [List.cons_append, readName_cons, readName_cons, htake, hdrop]
    split <;> rfl

theorem closeParam_append_slash (text after : Text) :
    closeParam (text ++ '/' :: after) = (closeParam text).map (· ++ '/' :: after) := by
  cases text with
  | nil => rfl
  | cons c text =>
    rw [List.cons_append, closeParam_cons, closeParam_cons]
    split <;> rfl

theorem readConvertor_append_slash (text after : Text) :
    readConvertor (text ++ '/' :: after) = (readConvertor text).map fun read => (read.1, read.2 ++ '/' :: after) := by
  cases text with
  | nil => rfl
  | cons c text =>
    rw [List.cons_append, readConvertor_cons, readConvertor_cons]
    split
    · rw [readName_append_slash]
      cases readName text with
      | none => rfl
      | some read =>
        simp only [Option.map_some, Option.bind_some, closeParam_append_slash, Option.map_map]
        rfl
    · rw [← List.cons_append, closeParam_append_slash, Option.map_map, Option.map_map]
      rfl

theorem readParam_append_slash (text after : Text) :
    readParam (text ++ '/' :: after) = (readParam text).map fun read => (read.1, read.2 ++ '/' :: after) := by
  cases text with
  | nil => rfl
  | cons c text =>
    rw [List.cons_append, readParam_cons, readParam_cons]
    split
    · rw [readName_append_slash]
      cases readName text with
      | none => rfl
      | some read => exact readConvertor_append_slash read.2 after
    · rfl

theorem compilePath_param {convertor : Text} (h : readParam (c :: text) = some (convertor, after)) :
    compilePath (c :: text) = .param convertor :: compilePath after := by
  rw [compilePath]
  split
  · next heq => cases h.symm.trans heq; rfl
  · next heq => cases h.symm.trans heq

theorem compilePath_text (h : readParam (c :: text) = none) :
    compilePath (c :: text) = .text c :: compilePath text := by
  rw [compilePath]
  split
  · next heq => cases h.symm.trans heq
  · rfl

theorem compilePath_of_ne (h : c ≠ '{') (text : Text) : compilePath (c :: text) = .text c :: compilePath text :=
  compilePath_text (if_neg (by simpa using h))

theorem compilePath_append_slash (text after : Text) :
    compilePath (text ++ '/' :: after) = compilePath text ++ .text '/' :: compilePath after := by
  fun_induction compilePath text with
  | case1 => exact compilePath_of_ne (by decide) after
  | case2 c text convertor rest hparam ih =>
    have happend := readParam_append_slash (c :: text) after
    rw [hparam] at happend
    exact (compilePath_param happend).trans (congrArg _ ih)
  | case3 c text hparam ih =>
    have happend := readParam_append_slash (c :: text) after
    rw [hparam] at happend
    exact (compilePath_text happend).trans (congrArg _ ih)

theorem compilePath_literal (text : Text) :
    compilePath text = (text.takeWhile (· != '{')).map .text ++ compilePath (text.dropWhile (· != '{')) := by
  induction text with
  | nil => rfl
  | cons c text ih =>
    by_cases hc : c = '{'
    · subst hc
      rfl
    · have hne : (c != '{') = true := by simpa using hc
      rw [List.takeWhile_cons, List.dropWhile_cons, if_pos hne, if_pos hne, compilePath_of_ne hc, ih]
      rfl

theorem mem_of_text_mem (h : .text c ∈ compilePath text) : c ∈ text := by
  fun_induction compilePath text with
  | case1 => cases h
  | case2 a text convertor rest hparam ih =>
    rcases List.mem_cons.mp h with heq | hmem
    · cases heq
    · exact List.mem_cons_of_mem _ ((readParam_suffix hparam).subset (ih hmem))
  | case3 a text hparam ih =>
    rcases List.mem_cons.mp h with heq | hmem
    · cases heq
      exact List.mem_cons_self ..
    · exact List.mem_cons_of_mem _ (ih hmem)

end Compile

/-! ### The texts that pieces match -/

section FullMatch

variable {C : Convertors} {c : Char} {pieces : List Piece} {text : Text}

theorem fullMatch_text : fullMatch C (.text c :: pieces) text = true ↔ ∃ rest, text = c :: rest ∧ fullMatch C pieces rest = true := by
  cases text with
  | nil => exact ⟨nofun, nofun⟩
  | cons a text =>
    simp only [fullMatch, Bool.and_eq_true, beq_iff_eq, List.cons.injEq]
    exact ⟨fun ⟨hc, h⟩ => ⟨text, ⟨hc.symm, rfl⟩, h⟩, fun ⟨_, ⟨hc, hrest⟩, h⟩ => ⟨hc.symm, hrest ▸ h⟩⟩

theorem fullMatch_param {convertor : Text} : fullMatch C (.param convertor :: pieces) text = true ↔
    ∃ value rest, text = value ++ rest ∧ C.accepts convertor value = true ∧ fullMatch C pieces rest = true := by
  rw [fullMatch, List.any_eq_true]
  constructor
  · rintro ⟨n, -, h⟩
    exact ⟨text.take n, text.drop n, (List.take_append_drop n text).symm, (Bool.and_eq_true _ _).mp h⟩
  · rintro ⟨value, rest, rfl, hvalue, hrest⟩
    refine ⟨value.length, List.mem_range.mpr (by rw [List.length_append]; omega), ?_⟩
    rw [List.take_left, List.drop_left, hvalue, hrest]
    rfl

theorem fullMatch_append {others : List Piece} : fullMatch C (pieces ++ others) text = true ↔
    ∃ first second, text = first ++ second ∧ fullMatch C pieces first = true ∧ fullMatch C others second = true := by
  induction pieces generalizing text with
  | nil =>
    constructor
    · exact fun h => ⟨[], text, rfl, rfl, h⟩
    · rintro ⟨first, second, rfl, hfirst, hsecond⟩
      rwa [List.isEmpty_iff.mp hfirst]
  | cons piece pieces ih =>
    cases piece with
    | text c =>
      simp only [List.cons_append, fullMatch_text, ih]
      constructor
      · rintro ⟨_, rfl, first, second, rfl, hfirst, hsecond⟩
        exact ⟨c :: first, second, rfl, ⟨first, rfl, hfirst⟩, hsecond⟩
      · rintro ⟨_, second, rfl, ⟨first, rfl, hfirst⟩, hsecond⟩
        exact ⟨first ++ second, rfl, first, second, rfl, hfirst, hsecond⟩
    | param convertor =>
      simp only [List.cons_append, fullMatch_param, ih]
      constructor
      · rintro ⟨value, _, rfl, hvalue, first, second, rfl, hfirst, hsecond⟩
        exact ⟨value ++ first, second, (List.append_assoc ..).symm, ⟨value, first, rfl, hvalue, hfirst⟩, hsecond⟩
      · rintro ⟨_, second, rfl, ⟨value, first, rfl, hvalue, hfirst⟩, hsecond⟩
        exact ⟨value, first ++ second, List.append_assoc .., hvalue, first, second, rfl, hfirst, hsecond⟩

theorem fullMatch_literal {literal : Text} : fullMatch C (literal.map .text) text = true ↔ text = literal := by
  induction literal generalizing text with
  | nil => exact List.isEmpty_iff
  | cons c literal ih =>
    rw [List.map_cons, fullMatch_text]
    exact ⟨fun ⟨_, htext, hrest⟩ => htext.trans (congrArg _ (ih.mp hrest)), fun h => ⟨literal, h, ih.mpr rfl⟩⟩

theorem fullMatch_not_mem (htext : .text '/' ∉ pieces) (hpath : .param pathName ∉ pieces)
    (h : fullMatch C pieces text = true) : '/' ∉ text := by
  induction pieces generalizing text with
  | nil =>
    rw [List.isEmpty_iff.mp h]
    exact List.not_mem_nil
  | cons piece pieces ih =>
    rw [List.mem_cons, not_or] at htext hpath
    cases piece with
    | text c =>
      obtain ⟨rest, rfl, hrest⟩ := fullMatch_text.mp h
      refine List.not_mem_cons_of_ne_of_not_mem (fun heq => htext.1 (by rw [heq])) (ih htext.2 hpath.2 hrest)
    | param convertor =>
      obtain ⟨value, rest, rfl, hvalue, hrest⟩ := fullMatch_param.mp h
      have hne : convertor ≠ pathName := fun heq => hpath.1 (by rw [heq])
      rw [List.mem_append, not_or]
      exact ⟨C.segment convertor value hne hvalue, ih htext.2 hpath.2 hrest⟩

theorem exists_fullMatch (h : ∀ convertor, .param convertor ∈ pieces → convertor = strName ∨ convertor = pathName) :
    ∃ text, fullMatch C pieces text = true := by
  induction pieces with
  | nil => exact ⟨[], rfl⟩
  | cons piece pieces ih =>
    obtain ⟨rest, hrest⟩ := ih fun convertor hmem => h convertor (List.mem_cons_of_mem _ hmem)
    cases piece with
    | text c => exact ⟨c :: rest, fullMatch_text.mpr ⟨rest, rfl, hrest⟩⟩
    | param convertor =>
      rcases h convertor (List.mem_cons_self ..) with rfl | rfl
      · exact ⟨_, fullMatch_param.mpr ⟨['x'], rest, rfl, (C.str _).mpr ⟨nofun, by decide⟩, hrest⟩⟩
      · exact ⟨_, fullMatch_param.mpr ⟨[], rest, rfl, C.path _, hrest⟩⟩

end FullMatch

/-! ### Segments -/

def literalHead : List Piece → Text
  | .text c :: pieces => c :: literalHead pieces
  | _ => []

def afterHead : List Piece → List Piece
  | .text _ :: pieces => afterHead pieces
  | pieces => pieces

/-- All parameters are `str` or `path`, and a path parameter's segment has no other before it. -/
structure IsSimple (template : Text) : Prop where
  convertors : ∀ convertor, .param convertor ∈ compilePath template → convertor = strName ∨ convertor = pathName
  first : ∀ segment ∈ template.splitOn '/', .param pathName ∈ compilePath segment →
    (afterHead (compilePath segment)).head? = some (.param pathName)

/-- At the first segment with a path parameter, a prefix segment that starts with the text before the first brace
starts with the text before the first parameter, if the segments before it match. -/
def Opens (C : Convertors) : List Text → List Text → Prop
  | templateSegment :: templateSegments, segment :: segments =>
    if .param pathName ∈ compilePath templateSegment then
      templateSegment.takeWhile (· != '{') <+: segment → literalHead (compilePath templateSegment) <+: segment
    else fullMatch C (compilePath templateSegment) segment = true → Opens C templateSegments segments
  | _, _ => True

section Segments

variable {C : Convertors} {pieces others : List Piece} {text routePrefix path template : Text}

theorem literalHead_append_afterHead (pieces : List Piece) :
    (literalHead pieces).map .text ++ afterHead pieces = pieces := by
  fun_induction literalHead pieces with
  | case1 c pieces ih => exact congrArg _ ih
  | case2 pieces h =>
    cases pieces with
    | nil => rfl
    | cons piece pieces =>
      cases piece with
      | text c => exact absurd rfl (h c pieces)
      | param => rfl

/-- What is behind the first segment of a text: nothing, or a slash and the other segments. -/
def IsTail (tail : Text) (segments : List Text) : Prop :=
  tail = [] ∧ segments = [] ∨ ∃ rest, tail = '/' :: rest ∧ segments = rest.splitOn '/'

theorem exists_segment (text : Text) : ∃ first tail segments, '/' ∉ first ∧ text = first ++ tail ∧
    text.splitOn '/' = first :: segments ∧ IsTail tail segments := by
  by_cases h : '/' ∈ text
  · obtain ⟨first, rest, rfl, hfirst⟩ := List.eq_append_cons_of_mem h
    exact ⟨first, _, _, hfirst, rfl, List.splitOn_append_cons_self_of_not_mem hfirst rest, .inr ⟨rest, rfl, rfl⟩⟩
  · exact ⟨text, [], [], h, (List.append_nil _).symm, List.splitOn_eq_singleton h, .inl ⟨rfl, rfl⟩⟩

theorem segment_unique {first first' rest rest' : Text} (hfirst : '/' ∉ first) (hfirst' : '/' ∉ first')
    (hrest : rest = [] ∨ rest.head? = some '/') (hrest' : rest' = [] ∨ rest'.head? = some '/')
    (h : first ++ rest = first' ++ rest') : first = first' ∧ rest = rest' := by
  have hsplit {a b : Text} (ha : '/' ∉ a) (hb : b = [] ∨ b.head? = some '/') :
      (a ++ b).takeWhile (· != '/') = a := by
    rw [List.takeWhile_append_of_pos fun c hc => by simpa using ne_of_mem_of_not_mem hc ha]
    rcases hb with rfl | hb
    · exact List.append_nil a
    · cases b with
      | nil => exact List.append_nil a
      | cons c b =>
        cases hb
        exact List.append_nil a
  have hsame : first = first' := by rw [← hsplit hfirst hrest, h, hsplit hfirst' hrest']
  exact ⟨hsame, List.append_cancel_left (hsame ▸ h)⟩

theorem segmentsReach_cons (templateSegment segment : Text) (templateSegments segments : List Text) :
    segmentsReach C (templateSegment :: templateSegments) (segment :: segments) =
      if .param pathName ∈ compilePath templateSegment then
        (templateSegment.takeWhile (· != '{')).isPrefixOf segment
      else fullMatch C (compilePath templateSegment) segment && segmentsReach C templateSegments segments := by
  have hcompile : compilePath ('/' :: templateSegment) = .text '/' :: compilePath templateSegment :=
    compilePath_of_ne (by decide) _
  have hany : (compilePath ('/' :: templateSegment)).any isPathParam = true ↔
      .param pathName ∈ compilePath templateSegment := by
    rw [hcompile, List.any_eq_true]
    simp only [isPathParam, beq_iff_eq, exists_eq_right, List.mem_cons, reduceCtorEq, false_or]
  have hmatch : fullMatch C (compilePath ('/' :: templateSegment)) ('/' :: segment) =
      fullMatch C (compilePath templateSegment) segment := by
    rw [hcompile, fullMatch]
    rfl
  simp only [segmentsReach, hany, hmatch, Bool.if_false_right, Bool.decide_eq_true]

theorem covers_iff : covers routePrefix path = true ↔ ∃ rest, path = routePrefix ++ rest ∧ (rest = [] ∨ rest.head? = some '/') := by
  rw [covers, Bool.or_eq_true, beq_iff_eq, List.isPrefixOf_iff_prefix]
  constructor
  · rintro (rfl | ⟨rest, rfl⟩)
    · exact ⟨[], (List.append_nil _).symm, .inl rfl⟩
    · exact ⟨'/' :: rest, List.append_assoc .., .inr rfl⟩
  · rintro ⟨rest, rfl, rfl | hhead⟩
    · exact .inl (List.append_nil _)
    · cases rest with
      | nil => cases hhead
      | cons c rest =>
        cases hhead
        exact .inr ⟨rest, List.append_assoc ..⟩

theorem prefix_segment {first literal rest : Text} (hliteral : '/' ∉ literal) (hrest : rest = [] ∨ rest.head? = some '/')
    (h : literal <+: first ++ rest) : literal <+: first := by
  rcases List.prefix_or_prefix_of_prefix h (List.prefix_append first rest) with h' | ⟨more, rfl⟩
  · exact h'
  · have hmore := (List.prefix_append_right_inj first).mp h
    cases more with
    | nil => exact ⟨[], by rw [List.append_nil, List.append_nil]⟩
    | cons c more =>
      obtain ⟨_, rfl⟩ := hmore
      rcases hrest with hrest | hrest
      · cases hrest
      · cases hrest
        exact absurd (List.mem_append_right _ (List.mem_cons_self ..)) hliteral

def IsRest (pieces : List Piece) (segments : List Text) : Prop :=
  pieces = [] ∧ segments = [] ∨ ∃ rest, pieces = .text '/' :: compilePath rest ∧ segments = rest.splitOn '/'

theorem exists_compiled (template : Text) : ∃ first pieces segments, '/' ∉ first ∧
    compilePath template = compilePath first ++ pieces ∧ template.splitOn '/' = first :: segments ∧
    IsRest pieces segments := by
  obtain ⟨first, tail, segments, hfirst, rfl, hsplit, ⟨rfl, rfl⟩ | ⟨rest, rfl, rfl⟩⟩ := exists_segment template
  · exact ⟨first, [], [], hfirst, by rw [List.append_nil, List.append_nil], hsplit, .inl ⟨rfl, rfl⟩⟩
  · exact ⟨first, _, _, hfirst, compilePath_append_slash first rest, hsplit, .inr ⟨rest, rfl, rfl⟩⟩

theorem fullMatch_cut {first : Text} {segments : List Text} (htemplate : '/' ∉ template) (hpieces : IsRest pieces segments)
    (hpath : .param pathName ∉ compilePath template) (hfirst : '/' ∉ first) (htext : text = [] ∨ text.head? = some '/')
    (h : fullMatch C (compilePath template ++ pieces) (first ++ text) = true) :
    fullMatch C (compilePath template) first = true ∧ fullMatch C pieces text = true := by
  obtain ⟨value, rest, heq, hvalue, hrest⟩ := fullMatch_append.mp h
  have hhead : rest = [] ∨ rest.head? = some '/' := by
    rcases hpieces with ⟨rfl, -⟩ | ⟨_, rfl, -⟩
    · exact .inl (List.isEmpty_iff.mp hrest)
    · obtain ⟨_, rfl, -⟩ := fullMatch_text.mp hrest
      exact .inr rfl
  have hslash := fullMatch_not_mem (fun hmem => htemplate (mem_of_text_mem hmem)) hpath hvalue
  obtain ⟨rfl, rfl⟩ := segment_unique hfirst hslash htext hhead heq
  exact ⟨hvalue, hrest⟩

theorem literalHead_prefix (h : fullMatch C (pieces ++ others) text = true) : literalHead pieces <+: text := by
  rw [← literalHead_append_afterHead pieces, List.append_assoc] at h
  obtain ⟨first, rest, rfl, hfirst, -⟩ := fullMatch_append.mp h
  exact fullMatch_literal.mp hfirst ▸ List.prefix_append first rest

theorem tail_head {tail rest : Text} {segments : List Text} (h : IsTail tail segments)
    (hrest : rest = [] ∨ rest.head? = some '/') : tail ++ rest = [] ∨ (tail ++ rest).head? = some '/' := by
  rcases h with ⟨rfl, -⟩ | ⟨_, rfl, -⟩
  · exact hrest
  · exact .inr rfl

theorem segmentsReach_nil (templateSegments : List Text) : segmentsReach C templateSegments [] = true := by
  cases templateSegments <;> rfl

theorem segmentsReach_of_match {rest : Text} (hrest : rest = [] ∨ rest.head? = some '/')
    (h : fullMatch C (compilePath template) (routePrefix ++ rest) = true) :
    segmentsReach C (template.splitOn '/') (routePrefix.splitOn '/') = true := by
  induction hlength : routePrefix.length using Nat.strongRecOn generalizing routePrefix template with
  | _ n ih =>
    subst hlength
    obtain ⟨t, pieces, ts, ht, hcompile, hts, hpieces⟩ := exists_compiled template
    obtain ⟨p, tail, ps, hp, rfl, hps, htail⟩ := exists_segment routePrefix
    have hhead := tail_head htail hrest
    rw [hcompile, List.append_assoc] at h
    rw [hts, hps, segmentsReach_cons]
    split
    · have hliteral : '/' ∉ t.takeWhile (· != '{') := fun hmem => ht ((List.takeWhile_subset _) hmem)
      rw [compilePath_literal t, List.append_assoc] at h
      obtain ⟨first, _, heq, hfirst, -⟩ := fullMatch_append.mp h
      rw [fullMatch_literal.mp hfirst] at heq
      exact List.isPrefixOf_iff_prefix.mpr (prefix_segment hliteral hhead ⟨_, heq.symm⟩)
    · next hpath =>
      obtain ⟨hmatch, hmore⟩ := fullMatch_cut ht hpieces hpath hp hhead h
      rw [hmatch, Bool.true_and]
      rcases htail with ⟨rfl, rfl⟩ | ⟨more, rfl, rfl⟩
      · exact segmentsReach_nil ts
      · rcases hpieces with ⟨rfl, -⟩ | ⟨after, rfl, rfl⟩
        · cases hmore
        · obtain ⟨_, heq, hmore⟩ := fullMatch_text.mp hmore
          cases heq
          exact ih more.length (by simp; omega) hmore rfl

theorem exists_match_of_reach (hsimple : IsSimple template)
    (hopens : Opens C (template.splitOn '/') (routePrefix.splitOn '/'))
    (h : segmentsReach C (template.splitOn '/') (routePrefix.splitOn '/') = true) :
    ∃ rest, (rest = [] ∨ rest.head? = some '/') ∧ fullMatch C (compilePath template) (routePrefix ++ rest) = true := by
  induction hlength : routePrefix.length using Nat.strongRecOn generalizing routePrefix template with
  | _ n ih =>
    subst hlength
    obtain ⟨t, pieces, ts, ht, hcompile, hts, hpieces⟩ := exists_compiled template
    obtain ⟨p, tail, ps, hp, rfl, hps, htail⟩ := exists_segment routePrefix
    have hconvertors := hsimple.convertors
    rw [hcompile] at hconvertors ⊢
    rw [hts, hps, segmentsReach_cons] at h
    rw [hts, hps, Opens] at hopens
    split at h
    · next hpath =>
      rw [if_pos hpath] at hopens
      obtain ⟨more, rfl⟩ := hopens (List.isPrefixOf_iff_prefix.mp h)
      have hfirst := hsimple.first t (by rw [hts]; exact List.mem_cons_self ..) hpath
      obtain ⟨others, hothers⟩ : ∃ others, afterHead (compilePath t) = .param pathName :: others := by
        cases hafter : afterHead (compilePath t) with
        | nil => rw [hafter] at hfirst; cases hfirst
        | cons piece others => rw [hafter] at hfirst; cases hfirst; exact ⟨others, rfl⟩
      have hwhole := literalHead_append_afterHead (compilePath t)
      rw [hothers] at hwhole
      have hall := (congrArg (· ++ pieces) hwhole.symm).trans (List.append_assoc ..)
      rw [hall] at hconvertors ⊢
      obtain ⟨end_, hend⟩ := exists_fullMatch (C := C) fun convertor hmem =>
        hconvertors convertor (List.mem_append_right _ (List.mem_cons_of_mem _ hmem))
      refine ⟨'/' :: end_, .inr rfl, ?_⟩
      refine fullMatch_append.mpr ⟨_, more ++ tail ++ '/' :: end_, by simp only [List.append_assoc],
        fullMatch_literal.mpr rfl, ?_⟩
      exact fullMatch_param.mpr ⟨more ++ tail ++ ['/'], end_, by simp only [List.append_assoc, List.singleton_append],
        C.path _, hend⟩
    · next hpath =>
      rw [if_neg hpath] at hopens
      obtain ⟨hmatch, hreach⟩ := (Bool.and_eq_true _ _).mp h
      rcases hpieces with ⟨rfl, rfl⟩ | ⟨after, rfl, rfl⟩
      · rcases htail with ⟨rfl, rfl⟩ | ⟨more, rfl, rfl⟩
        · exact ⟨[], .inl rfl, by simpa using hmatch⟩
        · obtain ⟨_, _, _, _, -, hsplit, -⟩ := exists_segment more
          rw [hsplit] at hreach
          cases hreach
      · have hafter : IsSimple after :=
          ⟨fun convertor hmem => hconvertors convertor (List.mem_append_right _ (List.mem_cons_of_mem _ hmem)),
            fun segment hmem => hsimple.first segment (by rw [hts]; exact List.mem_cons_of_mem _ hmem)⟩
        rcases htail with ⟨rfl, rfl⟩ | ⟨more, rfl, rfl⟩
        · obtain ⟨end_, hend⟩ := exists_fullMatch (C := C) hafter.convertors
          refine ⟨'/' :: end_, .inr rfl, fullMatch_append.mpr ⟨p, '/' :: end_, by simp, hmatch, ?_⟩⟩
          exact fullMatch_text.mpr ⟨end_, rfl, hend⟩
        · obtain ⟨rest, hrest, hmore⟩ := ih more.length (by simp; omega) hafter (hopens hmatch) hreach rfl
          refine ⟨rest, hrest, fullMatch_append.mpr ⟨p, '/' :: (more ++ rest), by simp, hmatch, ?_⟩⟩
          exact fullMatch_text.mpr ⟨_, rfl, hmore⟩

theorem opens_of_match (h : segmentsReach C (template.splitOn '/') (routePrefix.splitOn '/') = true →
      ∃ rest, (rest = [] ∨ rest.head? = some '/') ∧ fullMatch C (compilePath template) (routePrefix ++ rest) = true) :
    Opens C (template.splitOn '/') (routePrefix.splitOn '/') := by
  induction hlength : routePrefix.length using Nat.strongRecOn generalizing routePrefix template with
  | _ n ih =>
    subst hlength
    obtain ⟨t, pieces, ts, ht, hcompile, hts, hpieces⟩ := exists_compiled template
    obtain ⟨p, tail, ps, hp, rfl, hps, htail⟩ := exists_segment routePrefix
    rw [hts, hps, segmentsReach_cons, hcompile] at h
    rw [hts, hps, Opens]
    split
    · next hpath =>
      intro hliteral
      rw [if_pos hpath] at h
      obtain ⟨rest, hrest, hmatch⟩ := h (List.isPrefixOf_iff_prefix.mpr hliteral)
      have hhead := literalHead_prefix hmatch
      rw [List.append_assoc] at hhead
      refine prefix_segment (fun hmem => ht (mem_of_text_mem ?_)) (tail_head htail hrest) hhead
      rw [← literalHead_append_afterHead (compilePath t)]
      exact List.mem_append_left _ (List.mem_map_of_mem hmem)
    · next hpath =>
      intro hfirst
      rw [if_neg hpath, hfirst, Bool.true_and] at h
      rcases hpieces with ⟨rfl, rfl⟩ | ⟨after, rfl, rfl⟩
      · cases ps <;> trivial
      rcases htail with ⟨rfl, rfl⟩ | ⟨more, rfl, rfl⟩
      · cases after.splitOn '/' <;> trivial
      refine ih more.length (by simp; omega) (fun hreach => ?_) rfl
      obtain ⟨rest, hrest, hmatch⟩ := h hreach
      rw [List.append_assoc] at hmatch
      obtain ⟨-, hmore⟩ := fullMatch_cut ht (.inr ⟨after, rfl, rfl⟩) hpath hp (.inr rfl) hmatch
      obtain ⟨_, heq, hmore⟩ := fullMatch_text.mp hmore
      cases heq
      exact ⟨rest, hrest, hmore⟩

end Segments

/-! ### Prefixes and ownership -/

inductive PrefixError where
  | notAPath (entry : Option Text)
  | namesNoPath (entry : Text)
  | listedTwice (stripped : Text)

def rstripSlash (text : Text) : Text := text.rdropWhile (· == '/')

/-- `normalize_route_prefixes` after the prefixes in `out`; an entry that is not a `str` is none. -/
def normalizeRoutePrefixes (out : List Text) : List (Option Text) → Except PrefixError (List Text)
  | [] => .ok out
  | none :: _ => .error (.notAPath none)
  | some entry :: entries =>
    if entry.head? != some '/' then .error (.notAPath (some entry))
    else
      let stripped := rstripSlash entry
      if stripped.isEmpty || stripped.contains '?' || stripped.contains '#' then .error (.namesNoPath entry)
      else if out.contains stripped then .error (.listedTwice stripped)
      else normalizeRoutePrefixes (out ++ [stripped]) entries

inductive ScopeType where
  | http
  | websocket

structure Route where
  path : Option Text
  isMount : Bool
  /-- `route.matches` of a `GET` scope is not `Match.NONE`. -/
  matches_ : ScopeType → Text → Bool

namespace Route

variable (C : Convertors) (route : Route)

def template : Option Text := if route.isMount then route.path.map (· ++ "/\x7bpath:path\x7d".toList) else route.path

def reaches (routePrefix : Text) : Bool :=
  route.template.any (templateReaches C · routePrefix) || route.matches_ .http routePrefix ||
    route.matches_ .websocket routePrefix

/-- A template starts with a slash, and its route matches only paths that the template does. -/
def Lawful : Prop :=
  ∀ template ∈ route.template, template.head? = some '/' ∧
    ∀ kind path, route.matches_ kind path = true → fullMatch C (compilePath template) path = true

end Route

def checkRouteOwnership (C : Convertors) (routes : List Route) (prefixes : List Text) :
    Except (Text × Option Text) Unit :=
  match routes.findSome? fun route =>
      (prefixes.find? (route.reaches C)).map fun routePrefix => (routePrefix, route.path) with
  | some refused => .error refused
  | none => .ok ()

def Shadows (C : Convertors) (routePrefix template : Text) : Prop :=
  ∃ path, covers routePrefix path = true ∧ fullMatch C (compilePath template) path = true

def LiteralOpens (C : Convertors) (template routePrefix : Text) : Prop :=
  Opens C (template.splitOn '/').tail (routePrefix.splitOn '/').tail

section Ownership

variable {C : Convertors} {template routePrefix : Text}

theorem rstripSlash_head {entry : Text} (h : entry.head? = some '/') (hne : rstripSlash entry ≠ []) :
    (rstripSlash entry).head? = some '/' := by
  obtain ⟨rest, hrest⟩ := List.rdropWhile_prefix (· == '/') entry
  rw [rstripSlash] at hne ⊢
  cases hstripped : entry.rdropWhile (· == '/') with
  | nil => exact absurd hstripped hne
  | cons c stripped =>
    rw [hstripped] at hrest
    rw [← hrest] at h
    exact h

theorem normalizeRoutePrefixes_head {out prefixes : List Text} {entries : List (Option Text)}
    (h : normalizeRoutePrefixes out entries = .ok prefixes) (hout : ∀ routePrefix ∈ out, routePrefix.head? = some '/') :
    ∀ routePrefix ∈ prefixes, routePrefix.head? = some '/' := by
  induction entries generalizing out with
  | nil =>
    cases h
    exact hout
  | cons entry entries ih =>
    cases entry with
    | none => cases h
    | some entry =>
      rw [normalizeRoutePrefixes] at h
      split at h
      · cases h
      next hhead =>
      dsimp only at h
      split at h
      · cases h
      next hpath =>
      split at h
      · cases h
      refine ih h fun routePrefix hmem => ?_
      rcases List.mem_append.mp hmem with hmem | hmem
      · exact hout routePrefix hmem
      · rw [List.mem_singleton.mp hmem]
        refine rstripSlash_head (by simpa using hhead) fun hempty => hpath ?_
        rw [hempty]
        rfl

theorem splitOn_slash (text : Text) : ('/' :: text).splitOn '/' = [] :: text.splitOn '/' :=
  List.splitOn_append_cons_self_of_not_mem List.not_mem_nil text

theorem exists_slash {text : Text} (h : text.head? = some '/') : ∃ rest, text = '/' :: rest := by
  cases text with
  | nil => cases h
  | cons c rest => cases h; exact ⟨rest, rfl⟩

theorem shadows_iff (template routePrefix : Text) : Shadows C ('/' :: routePrefix) ('/' :: template) ↔
    ∃ rest, (rest = [] ∨ rest.head? = some '/') ∧ fullMatch C (compilePath template) (routePrefix ++ rest) = true := by
  simp only [Shadows, covers_iff, compilePath_of_ne (show '/' ≠ '{' by decide)]
  constructor
  · rintro ⟨_, ⟨rest, rfl, hrest⟩, hmatch⟩
    exact ⟨rest, hrest, hmatch⟩
  · rintro ⟨rest, hrest, hmatch⟩
    exact ⟨_, ⟨rest, rfl, hrest⟩, hmatch⟩

theorem IsSimple.tail (h : IsSimple ('/' :: template)) : IsSimple template := by
  refine ⟨fun convertor hmem => h.convertors convertor ?_, fun segment hmem => h.first segment ?_⟩
  · rw [compilePath_of_ne (by decide)]
    exact List.mem_cons_of_mem _ hmem
  · rw [splitOn_slash]
    exact List.mem_cons_of_mem _ hmem

theorem reaches_of_shadows (htemplate : template.head? = some '/') ( hprefix : routePrefix.head? = some '/')
    (h : Shadows C routePrefix template) : templateReaches C template routePrefix = true := by
  obtain ⟨template, rfl⟩ := exists_slash htemplate
  obtain ⟨routePrefix, rfl⟩ := exists_slash hprefix
  obtain ⟨rest, hrest, hmatch⟩ := (shadows_iff template routePrefix).mp h
  rw [templateReaches, splitOn_slash, splitOn_slash]
  exact segmentsReach_of_match hrest hmatch

theorem shadows_of_reaches_iff (htemplate : template.head? = some '/') ( hprefix : routePrefix.head? = some '/')
    (hsimple : IsSimple template) :
    (templateReaches C template routePrefix = true → Shadows C routePrefix template) ↔
      LiteralOpens C template routePrefix := by
  obtain ⟨template, rfl⟩ := exists_slash htemplate
  obtain ⟨routePrefix, rfl⟩ := exists_slash hprefix
  rw [templateReaches, LiteralOpens, splitOn_slash, splitOn_slash, shadows_iff]
  exact ⟨opens_of_match, fun hopens => exists_match_of_reach hsimple.tail hopens⟩

theorem checkRouteOwnership_iff {routes : List Route} {prefixes : List Text} :
    checkRouteOwnership C routes prefixes = .ok () ↔
      ∀ route ∈ routes, ∀ routePrefix ∈ prefixes, route.reaches C routePrefix = false := by
  rw [checkRouteOwnership]
  split
  · next refused hrefused =>
    refine iff_of_false nofun fun h => ?_
    obtain ⟨route, hroute, hfound⟩ := List.exists_of_findSome?_eq_some hrefused
    obtain ⟨routePrefix, hfound, -⟩ := Option.map_eq_some_iff.mp hfound
    have hreaches := List.find?_some hfound
    rw [h route hroute routePrefix (List.mem_of_find?_eq_some hfound)] at hreaches
    cases hreaches
  · next hnone =>
    refine iff_of_true rfl fun route hroute routePrefix hmem => ?_
    have hnotFound := List.findSome?_eq_none_iff.mp hnone route hroute
    rw [Option.map_eq_none_iff, List.find?_eq_none] at hnotFound
    exact Bool.not_eq_true _ ▸ hnotFound routePrefix hmem

theorem Route.reaches_eq {route : Route} (hlawful : route.Lawful C) (htemplate : route.template = some template)
    ( hprefix : routePrefix.head? = some '/') :
    route.reaches C routePrefix = templateReaches C template routePrefix := by
  obtain ⟨hslash, hmatches⟩ := hlawful template htemplate
  -- A probe that the route matches is a path that the template shadows.
  have hprobe (kind : ScopeType) (h : route.matches_ kind routePrefix = true) :
      templateReaches C template routePrefix = true :=
    reaches_of_shadows hslash hprefix
      ⟨routePrefix, covers_iff.mpr ⟨[], (List.append_nil _).symm, .inl rfl⟩, hmatches kind routePrefix h⟩
  rw [Route.reaches, htemplate, Option.any_some]
  cases hreaches : templateReaches C template routePrefix with
  | true => rfl
  | false =>
    have hnone (kind : ScopeType) : route.matches_ kind routePrefix = false := by
      rw [← Bool.not_eq_true]
      exact fun h => Bool.noConfusion (hreaches.symm.trans (hprobe kind h))
    rw [hnone, hnone]
    rfl

end Ownership

/-- The convertors `str`, `path` and `int`. -/
def plainConvertors : Convertors where
  accepts name value :=
    name == pathName || name == strName && !value.isEmpty && !value.contains '/' ||
      name == ['i', 'n', 't'] && !value.isEmpty && value.all Char.isDigit
  str value := by simp [strName, pathName]
  path value := rfl
  segment name value hname h := by
    simp only [Bool.or_eq_true, Bool.and_eq_true, beq_iff_eq, hname, false_or] at h
    rcases h with ⟨⟨-, -⟩, h⟩ | ⟨⟨-, -⟩, h⟩
    · simpa using h
    · exact fun hmem => absurd (List.all_eq_true.mp h '/' hmem) (by decide)

/-- A route at `/jobs/{id}` for `http`. -/
def jobRoute : Route where
  path := some "/jobs/\x7bid\x7d".toList
  isMount := false
  matches_
    | .http, path => fullMatch plainConvertors (compilePath "/jobs/\x7bid\x7d".toList) path
    | .websocket, _ => false

theorem jobRoute_lawful : jobRoute.Lawful plainConvertors := by
  rintro template htemplate
  cases htemplate
  refine ⟨rfl, fun kind path h => ?_⟩
  cases kind with
  | http => exact h
  | websocket => cases h

end StageRoutes.Templates
