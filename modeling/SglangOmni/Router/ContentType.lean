import SglangOmni.Router.Multipart

/-! `parse_content_type` of `http_relay/headers.rs`: a scanner over the bytes of a header's value,
and the values that it accepts as a grammar. -/

namespace Router.ContentType

open Lib Multipart

/-! ### The scanner -/

def isTchar (byte : UInt8) : Bool :=
  isAsciiAlphanumeric byte || byte ∈ asBytes "!#$%&'*+-.^_`|~".toList

def isQdtext (byte : UInt8) : Bool :=
  byte = 9 || byte = 32 || byte = 33 || (35 ≤ byte && byte ≤ 91) || (93 ≤ byte && byte ≤ 126)

def isQuotedPairByte (byte : UInt8) : Bool := byte = 9 || (32 ≤ byte && byte ≤ 126)

def isOws (byte : UInt8) : Bool := byte = 32 || byte = 9

def scanWhile (p : UInt8 → Bool) (bytes : Bytes) (cursor : ℕ) : ℕ :=
  match _found : bytes[cursor]? with
  | some byte => if p byte then scanWhile p bytes (cursor + 1) else cursor
  | none => cursor
termination_by bytes.length - cursor
decreasing_by
  have := (List.getElem?_eq_some_iff.mp _found).1
  omega

def skipOws (bytes : Bytes) (cursor : ℕ) : ℕ := scanWhile isOws bytes cursor

def parseToken (bytes : Bytes) (start : ℕ) : Option ℕ :=
  let cursor := scanWhile isTchar bytes start
  if start < cursor then some cursor else none

def quotedEnd (bytes : Bytes) (cursor : ℕ) : Option ℕ :=
  match _found : bytes[cursor]? with
  | none => none
  | some byte =>
    if byte = 34 then some (cursor + 1)
    else if byte = 92 then
      match bytes[cursor + 1]? with
      | none => none
      | some escaped => if isQuotedPairByte escaped then quotedEnd bytes (cursor + 2) else none
    else if isQdtext byte then quotedEnd bytes (cursor + 1)
    else none
termination_by bytes.length - cursor
decreasing_by all_goals
  have := (List.getElem?_eq_some_iff.mp _found).1
  omega

def parseValue (bytes : Bytes) (cursor : ℕ) : Option ℕ :=
  if bytes[cursor]? = some 34 then quotedEnd bytes (cursor + 1) else parseToken bytes cursor

def parseParameter (bytes : Bytes) (cursor : ℕ) : Option ℕ := do
  let cursor ← parseToken bytes (skipOws bytes cursor)
  if bytes[cursor]? = some 61 then parseValue bytes (cursor + 1) else none

/-! The cursor moves on. -/

theorem le_scanWhile (p : UInt8 → Bool) (bytes : Bytes) (cursor : ℕ) :
    cursor ≤ scanWhile p bytes cursor := by
  fun_induction scanWhile p bytes cursor with
  | case1 cursor byte _ hp ih => omega
  | case2 => exact le_rfl
  | case3 => exact le_rfl

theorem lt_parseToken {bytes : Bytes} {start stop : ℕ} (h : parseToken bytes start = some stop) :
    start < stop := by
  unfold parseToken at h
  simp only at h
  split at h
  · cases h
    assumption
  · cases h

theorem lt_quotedEnd {bytes : Bytes} {cursor stop : ℕ} (h : quotedEnd bytes cursor = some stop) :
    cursor < stop := by
  fun_induction quotedEnd bytes cursor with
  | case1 => cases h
  | case2 => cases h; omega
  | case3 => cases h
  | case4 _ _ _ _ _ _ ih => have := ih h; omega
  | case5 => cases h
  | case6 _ _ _ _ _ _ ih => have := ih h; omega
  | case7 => cases h

theorem lt_parseParameter {bytes : Bytes} {cursor stop : ℕ} (h : parseParameter bytes cursor = some stop) :
    cursor < stop := by
  unfold parseParameter at h
  rw [Option.bind_eq_bind, Option.bind_eq_some_iff] at h
  obtain ⟨equals, hequals, h⟩ := h
  have hskip := le_scanWhile isOws bytes cursor
  have hname := lt_parseToken hequals
  show cursor < stop
  unfold skipOws at hname
  split at h
  · unfold parseValue at h
    split at h
    · have := lt_quotedEnd h
      omega
    · have := lt_parseToken h
      omega
  · cases h

def parseParameters (bytes : Bytes) (cursor : ℕ) : Bool :=
  if skipOws bytes cursor = bytes.length then true
  else if _semicolon : bytes[skipOws bytes cursor]? = some 59 then
    match _next : parseParameter bytes (skipOws bytes cursor + 1) with
    | none => false
    | some next => parseParameters bytes next
  else false
termination_by bytes.length - cursor
decreasing_by
  have := (List.getElem?_eq_some_iff.mp _semicolon).1
  have := lt_parseParameter _next
  have := le_scanWhile isOws bytes cursor
  unfold skipOws at *
  omega

def parseContentType (value : Text) : Except Halt (Option Text) :=
  let bytes := asBytes value
  let mediaStart := skipOws bytes 0
  match parseToken bytes mediaStart with
  | none => .ok none
  | some slash =>
    if bytes[slash]? = some 47 then
      match parseToken bytes (slash + 1) with
      | none => .ok none
      | some mediaEnd =>
        if parseParameters bytes mediaEnd then (sliceText value mediaStart mediaEnd).map some
        else .ok none
    else .ok none

/-! ### The grammar -/

def Ows (bytes : Bytes) : Prop := ∀ byte ∈ bytes, isOws byte = true

def Token (bytes : Bytes) : Prop := bytes ≠ [] ∧ ∀ byte ∈ bytes, isTchar byte = true

inductive Quoted : Bytes → Prop
  | nil : Quoted []
  | qdtext {byte : UInt8} {rest : Bytes} (h : isQdtext byte = true) (hrest : Quoted rest) :
      Quoted (byte :: rest)
  | pair {byte : UInt8} {rest : Bytes} (h : isQuotedPairByte byte = true) (hrest : Quoted rest) :
      Quoted (92 :: byte :: rest)

inductive ParameterValue : Bytes → Prop
  | token {bytes : Bytes} (h : Token bytes) : ParameterValue bytes
  | quoted {bytes : Bytes} (h : Quoted bytes) : ParameterValue (34 :: (bytes ++ [34]))

/-- `*( OWS ';' OWS token '=' ( token / quoted-string ) ) OWS` -/
inductive Parameters : Bytes → Prop
  | done {ows : Bytes} (h : Ows ows) : Parameters ows
  | next {before after name value rest : Bytes} (hbefore : Ows before) (hafter : Ows after)
      (hname : Token name) (hvalue : ParameterValue value) (hrest : Parameters rest) :
      Parameters (before ++ 59 :: (after ++ (name ++ 61 :: (value ++ rest))))

/-- A value with its media type, `OWS token '/' token` before the parameters. -/
inductive ContentTypeOf : Bytes → Bytes → Prop
  | intro {ows kind subtype rest : Bytes} (hows : Ows ows) (hkind : Token kind)
      (hsubtype : Token subtype) (hrest : Parameters rest) :
      ContentTypeOf (ows ++ (kind ++ 47 :: (subtype ++ rest))) (kind ++ 47 :: subtype)

/-! ### What the scans find -/

section Scans

variable {bytes part rest : Bytes} {cursor stop : ℕ}

theorem drop_part (h : bytes.drop cursor = part ++ rest) : bytes.drop (cursor + part.length) = rest := by
  rw [← List.drop_drop, h, List.drop_left]

theorem drop_next {byte : UInt8} (h : bytes.drop cursor = byte :: rest) : bytes.drop (cursor + 1) = rest :=
  drop_part (show bytes.drop cursor = [byte] ++ rest from h)

theorem scanWhile_eq {p : UInt8 → Bool} (h : bytes.drop cursor = part ++ rest)
    (hpart : ∀ byte ∈ part, p byte = true) (hrest : ∀ byte ∈ rest.head?, p byte = false) :
    scanWhile p bytes cursor = cursor + part.length := by
  have hhead := congrArg List.head? h
  rw [List.head?_drop] at hhead
  induction part generalizing cursor with
  | nil =>
    rw [scanWhile]
    split
    · next byte hbyte =>
      rw [hhead] at hbyte
      rw [hrest byte hbyte, if_neg Bool.false_ne_true]
      rfl
    · rfl
  | cons byte part ih =>
    obtain ⟨hbyte, hpart⟩ := List.forall_mem_cons.mp hpart
    have hnext := drop_next h
    have hrec := ih hnext hpart (List.head?_drop.symm.trans (congrArg List.head? hnext))
    rw [scanWhile]
    split
    · next found hfound =>
      rw [hhead, List.cons_append, List.head?_cons, Option.some.injEq] at hfound
      rw [← hfound, if_pos hbyte, hrec, List.length_cons]
      omega
    · next hnone =>
      rw [hhead] at hnone
      cases hnone

theorem exists_scan (p : UInt8 → Bool) (bytes : Bytes) : ∃ part rest, bytes = part ++ rest ∧
    (∀ byte ∈ part, p byte = true) ∧ ∀ byte ∈ rest.head?, p byte = false := by
  refine ⟨bytes.takeWhile p, bytes.dropWhile p, List.takeWhile_append_dropWhile.symm,
    fun byte hbyte => List.mem_takeWhile_imp hbyte, fun byte hbyte => ?_⟩
  have hhead := List.head?_dropWhile_not p bytes
  rw [Option.mem_def.mp hbyte] at hhead
  simpa using hhead

theorem parseToken_eq (h : bytes.drop cursor = part ++ rest) (hpart : Token part)
    (hrest : ∀ byte ∈ rest.head?, isTchar byte = false) :
    parseToken bytes cursor = some (cursor + part.length) := by
  have hpos := List.length_pos_iff.mpr hpart.1
  unfold parseToken
  simp only [scanWhile_eq h hpart.2 hrest]
  rw [if_pos (by omega)]

theorem of_parseToken (h : parseToken bytes cursor = some stop) :
    ∃ part rest, bytes.drop cursor = part ++ rest ∧ (∀ byte ∈ rest.head?, isTchar byte = false) ∧
      Token part ∧ stop = cursor + part.length := by
  obtain ⟨part, rest, hdrop, hpart, hrest⟩ := exists_scan isTchar (bytes.drop cursor)
  refine ⟨part, rest, hdrop, hrest, ?_⟩
  unfold parseToken at h
  simp only [scanWhile_eq hdrop hpart hrest] at h
  split at h
  · next hlt =>
    cases h
    refine ⟨⟨?_, hpart⟩, rfl⟩
    rintro rfl
    rw [List.length_nil] at hlt
    omega
  · cases h

theorem quotedEnd_step (bytes : Bytes) (cursor : ℕ) : quotedEnd bytes cursor =
    match bytes.drop cursor with
    | [] => none
    | byte :: rest =>
      if byte = 34 then some (cursor + 1)
      else if byte = 92 then
        match rest with
        | [] => none
        | escaped :: _ => if isQuotedPairByte escaped then quotedEnd bytes (cursor + 2) else none
      else if isQdtext byte then quotedEnd bytes (cursor + 1)
      else none := by
  have hhead : (bytes.drop cursor).head? = bytes[cursor]? := List.head?_drop
  have hnext : (bytes.drop (cursor + 1)).head? = bytes[cursor + 1]? := List.head?_drop
  conv_lhs => rw [quotedEnd]
  cases hdrop : bytes.drop cursor with
  | nil =>
    rw [hdrop] at hhead
    split
    · rfl
    · next byte hbyte =>
      rw [← hhead] at hbyte
      cases hbyte
  | cons first rest =>
    rw [drop_next hdrop] at hnext
    rw [hdrop] at hhead
    split
    · next hnone =>
      rw [← hhead] at hnone
      cases hnone
    · next byte hbyte =>
      rw [← hhead, List.head?_cons, Option.some.injEq] at hbyte
      subst hbyte
      rw [← hnext]
      cases rest <;> rfl

theorem quotedEnd_eq (hpart : Quoted part) (h : bytes.drop cursor = part ++ 34 :: rest) :
    quotedEnd bytes cursor = some (cursor + part.length + 1) := by
  induction hpart generalizing cursor with
  | nil =>
    rw [quotedEnd_step, h]
    rfl
  | @qdtext byte part hbyte hpart ih =>
    have hquote : byte ≠ 34 := by
      rintro rfl
      cases hbyte
    have hbackslash : byte ≠ 92 := by
      rintro rfl
      cases hbyte
    have hrec := ih (drop_next h)
    rw [quotedEnd_step, h]
    show (if byte = 34 then _ else if byte = 92 then _ else if isQdtext byte then _ else _) = _
    rw [if_neg hquote, if_neg hbackslash, if_pos hbyte, hrec, List.length_cons]
    congr 1
    omega
  | @pair byte part hbyte hpart ih =>
    have hrec := ih (drop_next (drop_next h))
    rw [quotedEnd_step, h]
    show (if isQuotedPairByte byte then quotedEnd bytes (cursor + 2) else none) = _
    rw [if_pos hbyte, hrec, List.length_cons, List.length_cons]
    congr 1
    omega

theorem of_quotedEnd (h : quotedEnd bytes cursor = some stop) :
    ∃ part rest, bytes.drop cursor = part ++ 34 :: rest ∧ Quoted part ∧
      stop = cursor + part.length + 1 := by
  generalize hn : bytes.length - cursor = n
  induction n using Nat.strong_induction_on generalizing cursor with
  | _ n ih =>
    rw [quotedEnd_step] at h
    cases hdrop : bytes.drop cursor with
    | nil =>
      rw [hdrop] at h
      cases h
    | cons byte rest =>
      have hlength := congrArg List.length hdrop
      rw [List.length_drop, List.length_cons] at hlength
      simp only [hdrop] at h
      split at h
      · next hquote =>
        cases h
        exact ⟨[], rest, by rw [hquote]; rfl, .nil, rfl⟩
      · split at h
        · next hbackslash =>
          cases rest with
          | nil => cases h
          | cons escaped rest =>
            simp only at h
            split at h
            · next hpair =>
              obtain ⟨part, rest', hrest, hpart, hstop⟩ := ih _ (by omega) h rfl
              rw [drop_next (drop_next hdrop)] at hrest
              refine ⟨92 :: escaped :: part, rest', by rw [hbackslash, hrest]; rfl, .pair hpair hpart, ?_⟩
              rw [hstop, List.length_cons, List.length_cons]
              omega
            · cases h
        · split at h
          · next hqdtext =>
            obtain ⟨part, rest', hrest, hpart, hstop⟩ := ih _ (by omega) h rfl
            rw [drop_next hdrop] at hrest
            refine ⟨byte :: part, rest', by rw [hrest]; rfl, .qdtext hqdtext hpart, ?_⟩
            rw [hstop, List.length_cons]
            omega
          · cases h

theorem isTchar_of_isOws {byte : UInt8} (h : isOws byte = true) : isTchar byte = false := by
  unfold isOws at h
  rw [Bool.or_eq_true, decide_eq_true_eq, decide_eq_true_eq] at h
  rcases h with rfl | rfl <;> decide

theorem isOws_of_isTchar {byte : UInt8} (h : isTchar byte = true) : isOws byte = false := by
  rw [Bool.eq_false_iff]
  intro hows
  rw [isTchar_of_isOws hows] at h
  cases h

theorem Token.head (h : Token part) : ∀ byte ∈ (part ++ rest).head?, isOws byte = false := by
  obtain ⟨hne, hall⟩ := h
  cases part with
  | nil => exact absurd rfl hne
  | cons byte part =>
    intro b hb
    cases hb
    exact isOws_of_isTchar (hall byte List.mem_cons_self)

theorem Parameters.head (h : Parameters rest) : ∀ byte ∈ rest.head?, isTchar byte = false := by
  intro byte hbyte
  cases h with
  | done h => exact isTchar_of_isOws (h byte (List.mem_of_mem_head? hbyte))
  | @next before after name value rest hbefore =>
    cases before with
    | nil =>
      cases hbyte
      decide
    | cons b before =>
      cases hbyte
      exact isTchar_of_isOws (hbefore _ List.mem_cons_self)

theorem parseValue_eq (hpart : ParameterValue part) (h : bytes.drop cursor = part ++ rest)
    (hrest : ∀ byte ∈ rest.head?, isTchar byte = false) :
    parseValue bytes cursor = some (cursor + part.length) := by
  have hhead := congrArg List.head? h
  rw [List.head?_drop] at hhead
  unfold parseValue
  cases hpart with
  | token hpart =>
    have hquote : ¬bytes[cursor]? = some 34 := by
      rw [hhead]
      obtain ⟨hne, hall⟩ := hpart
      cases part with
      | nil => exact absurd rfl hne
      | cons byte part =>
        intro h34
        cases h34
        exact absurd (hall 34 List.mem_cons_self) (by decide)
    rw [if_neg hquote, parseToken_eq h hpart hrest]
  | @quoted part hpart =>
    have hinner : bytes.drop (cursor + 1) = part ++ 34 :: rest := by
      have hnext : bytes.drop (cursor + 1) = (part ++ [34]) ++ rest := drop_next h
      rw [hnext, List.append_assoc]
      rfl
    have hquote : bytes[cursor]? = some 34 := hhead
    rw [if_pos hquote, quotedEnd_eq hpart hinner]
    congr 1
    simp only [List.length_cons, List.length_append, List.length_nil]
    omega

theorem of_parseValue (h : parseValue bytes cursor = some stop) :
    ∃ part rest, bytes.drop cursor = part ++ rest ∧ ParameterValue part ∧ stop = cursor + part.length := by
  unfold parseValue at h
  split at h
  · next hquote =>
    obtain ⟨part, rest, hrest, hpart, hstop⟩ := of_quotedEnd h
    rw [← List.head?_drop] at hquote
    cases hdrop : bytes.drop cursor with
    | nil => rw [hdrop] at hquote; cases hquote
    | cons byte inner =>
      rw [hdrop, List.head?_cons, Option.some.injEq] at hquote
      rw [drop_next hdrop] at hrest
      refine ⟨34 :: (part ++ [34]), rest, by simp [hquote, hrest], .quoted hpart, ?_⟩
      simp only [List.length_cons, List.length_append, List.length_nil]
      omega
  · obtain ⟨part, rest, hrest, -, hpart, hstop⟩ := of_parseToken h
    exact ⟨part, rest, hrest, .token hpart, hstop⟩

theorem parseParameter_eq {ows name value : Bytes} (hows : Ows ows) (hname : Token name)
    (hvalue : ParameterValue value) (h : bytes.drop cursor = ows ++ (name ++ 61 :: (value ++ rest)))
    (hrest : ∀ byte ∈ rest.head?, isTchar byte = false) :
    parseParameter bytes cursor = some (cursor + (ows ++ (name ++ 61 :: value)).length) := by
  have hskip : skipOws bytes cursor = cursor + ows.length := scanWhile_eq h hows hname.head
  have hafter := drop_part h
  have hname' : parseToken bytes (skipOws bytes cursor) = some (cursor + ows.length + name.length) := by
    rw [hskip]
    refine parseToken_eq hafter hname fun byte hbyte => ?_
    cases hbyte
    decide
  have hequals := drop_part hafter
  have hhead : bytes[cursor + ows.length + name.length]? = some 61 := by
    rw [← List.head?_drop, hequals]
    rfl
  unfold parseParameter
  rw [hname', Option.bind_eq_bind, Option.bind_some, if_pos hhead,
    parseValue_eq hvalue (drop_next hequals) hrest]
  congr 1
  simp only [List.length_cons, List.length_append]
  omega

theorem of_parseParameter (h : parseParameter bytes cursor = some stop) :
    ∃ ows name value rest, bytes.drop cursor = ows ++ (name ++ 61 :: (value ++ rest)) ∧ Ows ows ∧
      Token name ∧ ParameterValue value ∧ stop = cursor + (ows ++ (name ++ 61 :: value)).length := by
  unfold parseParameter at h
  rw [Option.bind_eq_bind, Option.bind_eq_some_iff] at h
  obtain ⟨equals, hequals, h⟩ := h
  obtain ⟨ows, behind, hdrop, hows, hhead⟩ := exists_scan isOws (bytes.drop cursor)
  have hskip : skipOws bytes cursor = cursor + ows.length := scanWhile_eq hdrop hows hhead
  rw [hskip] at hequals
  obtain ⟨name, after, hname, -, htoken, rfl⟩ := of_parseToken hequals
  have hafter := drop_part hname
  split at h
  · next hsign =>
    obtain ⟨value, rest, hrest, hvalue, rfl⟩ := of_parseValue h
    rw [← List.head?_drop, hafter] at hsign
    cases after with
    | nil => cases hsign
    | cons byte after =>
      cases hsign
      rw [drop_next hafter] at hrest
      rw [drop_part hdrop] at hname
      refine ⟨ows, name, value, rest, by rw [hdrop, hname, hrest], hows, htoken, hvalue, ?_⟩
      simp only [List.length_cons, List.length_append]
      omega
  · cases h

theorem parseParameters_eq (h : Parameters rest) (hdrop : bytes.drop cursor = rest)
    (hle : cursor ≤ bytes.length) : parseParameters bytes cursor = true := by
  have hlength := congrArg List.length hdrop
  rw [List.length_drop] at hlength
  induction h generalizing cursor with
  | @done ows hows =>
    have hskip : skipOws bytes cursor = cursor + ows.length :=
      scanWhile_eq (by rw [hdrop, List.append_nil]) hows fun _ hbyte => by cases hbyte
    rw [parseParameters, if_pos (by omega)]
  | @next before after name value rest hbefore hafter hname hvalue hrest ih =>
    have hskip : skipOws bytes cursor = cursor + before.length :=
      scanWhile_eq hdrop hbefore fun byte hbyte => by cases hbyte; decide
    have hsemicolon := drop_part hdrop
    have hhead := congrArg List.head? hsemicolon
    rw [List.head?_drop, List.head?_cons, ← hskip] at hhead
    have hinner := drop_next hsemicolon
    have hnext := parseParameter_eq hafter hname hvalue hinner hrest.head
    have hbehind : bytes.drop (cursor + before.length + 1 + (after ++ (name ++ 61 :: value)).length) =
        rest := drop_part (by rw [hinner]; simp)
    have hrests := congrArg List.length hbehind
    simp only [List.length_drop, List.length_append, List.length_cons] at hlength hrests
    have hlong := (List.getElem?_eq_some_iff.mp hhead).1
    rw [parseParameters, if_neg (by omega), dif_pos hhead]
    split
    · next hnone =>
      rw [hskip, hnext] at hnone
      cases hnone
    · next next hsome =>
      rw [hskip, hnext, Option.some.injEq] at hsome
      subst hsome
      refine ih hbehind ?_ ?_
      · simp only [List.length_append, List.length_cons]
        omega
      · rw [← List.length_drop, hbehind]

theorem of_parseParameters (h : parseParameters bytes cursor = true) (hle : cursor ≤ bytes.length) :
    Parameters (bytes.drop cursor) := by
  fun_induction parseParameters bytes cursor with
  | case1 cursor hend =>
    obtain ⟨ows, behind, hdrop, hows, hhead⟩ := exists_scan isOws (bytes.drop cursor)
    have hskip : skipOws bytes cursor = cursor + ows.length := scanWhile_eq hdrop hows hhead
    have hlength := congrArg List.length hdrop
    rw [List.length_drop, List.length_append] at hlength
    have hnil : behind = [] := List.eq_nil_of_length_eq_zero (by omega)
    rw [hdrop, hnil, List.append_nil]
    exact .done hows
  | case2 => cases h
  | case3 cursor hgoes hsemicolon next hnext ih =>
    obtain ⟨ows, behind, hdrop, hows, hhead⟩ := exists_scan isOws (bytes.drop cursor)
    have hskip : skipOws bytes cursor = cursor + ows.length := scanWhile_eq hdrop hows hhead
    rw [hskip, ← List.head?_drop, drop_part hdrop] at hsemicolon
    obtain ⟨after, name, value, rest, hinner, hafter, hname, hvalue, hstop⟩ := of_parseParameter hnext
    rw [hskip] at hinner hstop
    cases behind with
    | nil => cases hsemicolon
    | cons byte behind =>
      cases hsemicolon
      have hbehind := drop_next (drop_part hdrop)
      have hrest : bytes.drop next = rest := by
        rw [hstop]
        exact drop_part (by rw [hinner]; simp)
      have hlength := congrArg List.length hinner
      simp only [List.length_drop, List.length_append, List.length_cons] at hlength hstop
      have hparameters := ih h (by omega)
      rw [hrest] at hparameters
      rw [hdrop, ← hbehind, hinner]
      exact .next hows hafter hname hvalue hparameters
  | case4 => cases h

end Scans

/-! ### What is accepted -/

section Accepted

variable {value : Text} {before part rest : Bytes}

theorem split_ascii (h : asBytes value = part ++ rest) (hpart : ∀ byte ∈ part, byte.toNat < 128) :
    ∃ text tail, value = text ++ tail ∧ asBytes text = part ∧ asBytes tail = rest := by
  induction part generalizing value with
  | nil => exact ⟨[], value, rfl, rfl, h⟩
  | cons byte part ih =>
    obtain ⟨hbyte, hpart⟩ := List.forall_mem_cons.mp hpart
    cases value with
    | nil => cases h
    | cons c value =>
      rw [asBytes_cons] at h
      by_cases hc : IsAscii c
      · rw [encodeChar_ascii hc, List.singleton_append, List.cons_append, List.cons.injEq] at h
        obtain ⟨text, tail, rfl, htext, htail⟩ := ih h.2 hpart
        refine ⟨c :: text, tail, rfl, ?_, htail⟩
        rw [asBytes_cons, encodeChar_ascii hc, List.singleton_append, htext, h.1]
      · cases hchar : String.utf8EncodeChar c with
        | nil => exact absurd hchar String.utf8EncodeChar_ne_nil
        | cons first others =>
          rw [hchar, List.cons_append, List.cons_append, List.cons.injEq] at h
          have hwide := le_of_mem_encodeChar hc (hchar ▸ List.mem_cons_self)
          rw [h.1] at hwide
          omega

theorem slice_ascii (h : asBytes value = before ++ (part ++ rest))
    (hbefore : ∀ byte ∈ before, byte.toNat < 128) (hpart : ∀ byte ∈ part, byte.toNat < 128) :
    ∃ text, sliceText value before.length (before.length + part.length) = .ok text ∧
      asBytes text = part := by
  obtain ⟨first, others, rfl, rfl, hothers⟩ := split_ascii h hbefore
  obtain ⟨text, tail, rfl, rfl, -⟩ := split_ascii hothers hpart
  refine ⟨text, ?_, rfl⟩
  have hslice := sliceText_append first text tail
  rwa [asBytes_append, List.length_append] at hslice

theorem ascii_of_isTchar {byte : UInt8} (h : isTchar byte = true) : byte.toNat < 128 := by
  have hall : ∀ n < 256, isTchar (UInt8.ofNat n) = true → n < 128 := by decide +kernel
  have hbyte := hall byte.toNat byte.toNat_lt
  rw [UInt8.ofNat_toNat] at hbyte
  exact hbyte h

theorem ascii_of_isOws {byte : UInt8} (h : isOws byte = true) : byte.toNat < 128 := by
  unfold isOws at h
  rw [Bool.or_eq_true, decide_eq_true_eq, decide_eq_true_eq] at h
  rcases h with rfl | rfl <;> decide

theorem parseContentType_eq {ows kind subtype : Bytes} (hows : Ows ows) (hkind : Token kind)
    (hsubtype : Token subtype) (hrest : ∀ byte ∈ rest.head?, isTchar byte = false)
    (h : asBytes value = ows ++ (kind ++ 47 :: (subtype ++ rest))) :
    ∃ media, asBytes media = kind ++ 47 :: subtype ∧ parseContentType value =
      .ok (if parseParameters (asBytes value) (ows.length + (kind ++ 47 :: subtype).length) then
        some media else none) := by
  have hmedia : ∀ byte ∈ kind ++ 47 :: subtype, byte.toNat < 128 := by
    intro byte hbyte
    rcases List.mem_append.mp hbyte with hbyte | hbyte
    · exact ascii_of_isTchar (hkind.2 byte hbyte)
    · rcases List.mem_cons.mp hbyte with rfl | hbyte
      · decide
      · exact ascii_of_isTchar (hsubtype.2 byte hbyte)
  have hslice := slice_ascii (show asBytes value = ows ++ ((kind ++ 47 :: subtype) ++ rest) by rw [h]; simp)
    (fun byte hbyte => ascii_of_isOws (hows byte hbyte)) hmedia
  obtain ⟨media, hslice, hbytes⟩ := hslice
  refine ⟨media, hbytes, ?_⟩
  have hskip : skipOws (asBytes value) 0 = 0 + ows.length :=
    scanWhile_eq (by rw [List.drop_zero, h]) hows hkind.head
  have hdrop : (asBytes value).drop ows.length = kind ++ 47 :: (subtype ++ rest) := by
    rw [h, List.drop_left]
  have htoken : parseToken (asBytes value) ows.length = some (ows.length + kind.length) :=
    parseToken_eq hdrop hkind fun byte hbyte => by cases hbyte; decide
  have hslash := drop_part hdrop
  have hhead : (asBytes value)[ows.length + kind.length]? = some 47 := by
    rw [← List.head?_drop, hslash]
    rfl
  have hsecond := parseToken_eq (drop_next hslash) hsubtype hrest
  have hend : ows.length + kind.length + 1 + subtype.length =
      ows.length + (kind ++ 47 :: subtype).length := by
    rw [List.length_append, List.length_cons]
    omega
  unfold parseContentType
  simp only [hskip, Nat.zero_add, htoken]
  rw [if_pos hhead]
  simp only [hsecond, hend]
  split
  · rw [hslice]
    rfl
  · rfl

theorem parseContentType_cases (value : Text) : parseContentType value = .ok none ∨
    ∃ ows kind subtype rest, asBytes value = ows ++ (kind ++ 47 :: (subtype ++ rest)) ∧ Ows ows ∧
      Token kind ∧ Token subtype ∧ ∀ byte ∈ rest.head?, isTchar byte = false := by
  obtain ⟨ows, behind, hdrop, hows, hhead⟩ := exists_scan isOws (asBytes value)
  have hskip : skipOws (asBytes value) 0 = 0 + ows.length := scanWhile_eq hdrop hows hhead
  rw [Nat.zero_add] at hskip
  unfold parseContentType
  simp only [hskip]
  split
  · exact .inl rfl
  · next slash hslash =>
    obtain ⟨kind, after, hkind, -, htoken, rfl⟩ := of_parseToken hslash
    have hafter := drop_part hkind
    split
    · next hsign =>
      rw [← List.head?_drop, hafter] at hsign
      split
      · exact .inl rfl
      · next mediaEnd hend =>
        obtain ⟨subtype, rest, hsubtype, hstops, htoken', -⟩ := of_parseToken hend
        cases after with
        | nil => cases hsign
        | cons byte after =>
          cases hsign
          rw [drop_next hafter] at hsubtype
          rw [hdrop, List.drop_left] at hkind
          exact .inr ⟨ows, kind, subtype, rest, by rw [hdrop, hkind, hsubtype], hows, htoken, htoken', hstops⟩
    · exact .inl rfl

/-- Every value is read without a panic, exactly those of the grammar are accepted, and the result is
their media type. -/
theorem parseContentType_reads (value : Text) : (∃ accepted, parseContentType value = .ok accepted) ∧
    ∀ media, parseContentType value = .ok (some media) ↔
      ContentTypeOf (asBytes value) (asBytes media) := by
  refine ⟨?_, fun media => ⟨fun hparse => ?_, fun hmedia => ?_⟩⟩
  · rcases parseContentType_cases value with hnone | ⟨ows, kind, subtype, rest, h, hows, hkind, hsubtype, hrest⟩
    · exact ⟨none, hnone⟩
    · obtain ⟨media, -, heq⟩ := parseContentType_eq hows hkind hsubtype hrest h
      exact ⟨_, heq⟩
  · rcases parseContentType_cases value with hnone | ⟨ows, kind, subtype, rest, h, hows, hkind, hsubtype, hrest⟩
    · rw [hnone] at hparse
      cases hparse
    · obtain ⟨found, hfound, heq⟩ := parseContentType_eq hows hkind hsubtype hrest h
      rw [hparse, Except.ok.injEq] at heq
      split at heq
      · next hparameters =>
        cases heq
        have hdrop : (asBytes value).drop (ows.length + (kind ++ 47 :: subtype).length) = rest :=
          drop_part (by rw [h, List.drop_left]; simp)
        have hlength := congrArg List.length h
        simp only [List.length_append, List.length_cons] at hlength
        have hrest' := of_parseParameters hparameters (by
          rw [List.length_append, List.length_cons]
          omega)
        rw [hdrop] at hrest'
        rw [hfound, h]
        exact .intro hows hkind hsubtype hrest'
      · cases heq
  · generalize hbytes : asBytes value = bytes at hmedia
    generalize htype : asBytes media = found at hmedia
    cases hmedia with
    | @intro ows kind subtype rest hows hkind hsubtype hrest =>
      obtain ⟨media', hmedia', heq⟩ := parseContentType_eq hows hkind hsubtype hrest.head hbytes
      have hsame : media' = media := by
        have hread := congrArg fromUtf8 (hmedia'.trans htype.symm)
        rwa [fromUtf8_asBytes, fromUtf8_asBytes, Option.some.injEq] at hread
      have hdrop : (asBytes value).drop (ows.length + (kind ++ 47 :: subtype).length) = rest :=
        drop_part (by rw [hbytes, List.drop_left]; simp)
      have hlength := congrArg List.length hbytes
      simp only [List.length_append, List.length_cons] at hlength
      rw [heq, hsame, if_pos]
      refine parseParameters_eq hrest hdrop ?_
      rw [List.length_append, List.length_cons]
      omega

end Accepted

end Router.ContentType
