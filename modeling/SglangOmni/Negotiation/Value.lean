import Mathlib.Algebra.Order.Ring.Rat
import SglangOmni.Lib.Dict

/-! Values of a decoded JSON text and the merge of one configuration into another.  A dictionary is the
list of its entries in insertion order; two dictionaries are equal when they have the same keys with equal
values. -/

namespace Negotiation

open Lib

/-- A JSON value.  `nonFinite` stands for the infinities and NaN, which are never valid. -/
inductive Value
  | null
  | bool (b : Bool)
  | int (n : Int)
  | float (q : ℚ)
  | nonFinite
  | str (s : String)
  | list (items : List Value)
  | dict (entries : List (String × Value))

abbrev Entries := List (String × Value)

/-- `entries.get(key)`: `none` where the key is missing. -/
def get? (entries : Entries) (key : String) : Option Value :=
  (entries.find? fun e => e.1 = key).map Prod.snd

def set (entries : Entries) (key : String) (value : Value) : Entries :=
  Dict.setEntries key value entries

def setDefault (entries : Entries) (key : String) (value : Value) : Entries :=
  if (get? entries key).isSome then entries else set entries key value

def pop (entries : Entries) (key : String) : Entries := entries.filter fun e => e.1 ≠ key

def getDict (entries : Entries) (key : String) : Entries :=
  match get? entries key with
  | some (.dict inner) => inner
  | _ => []

def Value.number? : Value → Option ℚ
  | .bool b => some (if b then 1 else 0)
  | .int n => some n
  | .float q => some q
  | _ => none

mutual

/-- `==`. -/
def Value.eqv : Value → Value → Bool
  | .null, .null => true
  | .nonFinite, .nonFinite => true
  | .str s, .str t => s = t
  | .list items, .list items' => eqvList items items'
  | .dict entries, .dict entries' =>
    (entries'.all fun e => (get? entries e.1).isSome) && eqvEntries entries entries'
  | v, w => v.number?.isSome && v.number? = w.number?

def eqvList : List Value → List Value → Bool
  | [], [] => true
  | v :: rest, w :: rest' => v.eqv w && eqvList rest rest'
  | _, _ => false

/-- Whether each entry has an equal one in `entries'`. -/
def eqvEntries : List (String × Value) → List (String × Value) → Bool
  | [], _ => true
  | (key, v) :: rest, entries' =>
    (match get? entries' key with
      | some w => v.eqv w
      | none => false) && eqvEntries rest entries'

end

mutual

/-- `merge_config` at one key: two dictionaries are merged, and any other value is replaced. -/
def mergeValue : Option Value → Value → Value
  | some (.dict current), .dict patch => .dict (mergeConfig current patch)
  | _, patchValue => patchValue

def mergeConfig : List (String × Value) → List (String × Value) → List (String × Value)
  | current, [] => current
  | current, (key, patchValue) :: rest =>
    mergeConfig (set current key (mergeValue (get? current key) patchValue)) rest

end

mutual

def Value.distinct : Value → Bool
  | .list items => distinctList items
  | .dict entries => (entries.map Prod.fst).Nodup && distinctEntries entries
  | _ => true

/-- `Value.distinct` of the items of a list. -/
def distinctList : List Value → Bool
  | [] => true
  | v :: rest => v.distinct && distinctList rest

/-- `Value.distinct` of the values of a dictionary. -/
def distinctEntries : List (String × Value) → Bool
  | [] => true
  | (_, v) :: rest => v.distinct && distinctEntries rest

end

/-! ### Lookup -/

section

variable {entries entries' : Entries} {key other : String} {v w : Value}

theorem get?_set (entries : Entries) (key other : String) (v : Value) :
    get? (set entries key v) other = if other = key then some v else get? entries other :=
  Dict.find?_setEntries key other v entries

@[simp] theorem get?_set_self (entries : Entries) (key : String) (v : Value) :
    get? (set entries key v) key = some v := by
  rw [get?_set, if_pos rfl]

theorem get?_set_of_ne (h : other ≠ key) : get? (set entries key v) other = get? entries other := by
  rw [get?_set, if_neg h]

theorem mem_of_get? (h : get? entries key = some v) : (key, v) ∈ entries := by
  obtain ⟨e, he, rfl⟩ := Option.map_eq_some_iff.mp h
  have hkey : e.1 = key := by simpa using List.find?_some he
  rw [← hkey]
  exact List.mem_of_find?_eq_some he

theorem get?_isSome_iff : (get? entries key).isSome = true ↔ key ∈ entries.map Prod.fst := by
  rw [get?, Option.isSome_map, List.find?_isSome, List.mem_map]
  constructor
  · rintro ⟨e, he, hkey⟩
    exact ⟨e, he, of_decide_eq_true hkey⟩
  · rintro ⟨e, he, rfl⟩
    exact ⟨e, he, decide_eq_true rfl⟩

theorem get?_of_mem (h : (entries.map Prod.fst).Nodup) (hmem : (key, v) ∈ entries) :
    get? entries key = some v :=
  (Dict.mem_entries_iff ⟨entries, h⟩ key v).mp hmem

theorem get?_pop (entries : Entries) (key other : String) :
    get? (pop entries key) other = if other = key then none else get? entries other := by
  induction entries with
  | nil => exact (ite_self none).symm
  | cons e rest ih =>
    unfold get? pop at ih ⊢
    by_cases hkey : e.1 = key
    · rw [List.filter_cons_of_neg (by simp [hkey]), ih]
      split
      · rfl
      · next hne =>
        rw [List.find?_cons_of_neg]
        simpa [hkey] using Ne.symm hne
    · rw [List.filter_cons_of_pos (by simp [hkey])]
      by_cases hother : e.1 = other
      · rw [List.find?_cons_of_pos (by simpa using hother), List.find?_cons_of_pos (by simpa using hother),
          if_neg (by rw [← hother]; exact hkey)]
      · rw [List.find?_cons_of_neg (by simpa using hother), ih,
          List.find?_cons_of_neg (by simpa using hother)]

theorem set_eq_self (h : get? entries key = some v) : set entries key v = entries := by
  induction entries with
  | nil => cases h
  | cons e rest ih =>
    unfold get? at h ih
    by_cases hkey : e.1 = key
    · rw [List.find?_cons_of_pos (by simpa using hkey)] at h
      rw [set, Dict.setEntries, if_pos hkey, ← hkey, ← Option.some.inj h]
    · rw [List.find?_cons_of_neg (by simpa using hkey)] at h
      rw [set, Dict.setEntries, if_neg hkey]
      exact congrArg (e :: ·) (ih h)

theorem set_set (entries : Entries) (key : String) (v w : Value) :
    set (set entries key v) key w = set entries key w := by
  induction entries with
  | nil => simp [set, Dict.setEntries]
  | cons e rest ih =>
    unfold set at ih ⊢
    by_cases hkey : e.1 = key
    · simp [Dict.setEntries, hkey]
    · simp only [Dict.setEntries, if_neg hkey]
      rw [ih]

theorem pop_set (entries : Entries) (key : String) (v : Value) :
    pop (set entries key v) key = pop entries key := by
  induction entries with
  | nil => simp [set, pop, Dict.setEntries]
  | cons e rest ih =>
    unfold set pop at ih ⊢
    by_cases hkey : e.1 = key
    · simp [Dict.setEntries, hkey]
    · simp only [Dict.setEntries, if_neg hkey, List.filter_cons]
      rw [ih]

theorem setDefault_of_some (h : get? entries key = some w) : setDefault entries key v = entries := by
  rw [setDefault, h]
  rfl

theorem get?_setDefault_of_some (h : get? entries other = some w) :
    get? (setDefault entries key v) other = some w := by
  unfold setDefault
  split
  · exact h
  · next hnone =>
    rw [get?_set_of_ne, h]
    rintro rfl
    rw [h] at hnone
    exact hnone rfl

theorem getDict_of_some (h : get? entries key = some (.dict entries')) :
    getDict entries key = entries' := by
  rw [getDict, h]

end

/-! ### Distinct keys -/

theorem Value.induction {P : Value → Prop} (hlist : ∀ items : List Value, (∀ v ∈ items, P v) → P (.list items))
    (hdict : ∀ entries : Entries, (∀ e ∈ entries, P e.2) → P (.dict entries))
    (hleaf : ∀ v : Value, (∀ items, v ≠ .list items) → (∀ entries, v ≠ .dict entries) → P v) :
    ∀ v, P v
  | .list items => hlist items fun v _ => Value.induction hlist hdict hleaf v
  | .dict entries => hdict entries fun e he => by
    have hlt := List.sizeOf_lt_of_mem he
    have hinner : sizeOf e.2 < sizeOf e := by
      obtain ⟨key, v⟩ := e
      simp +arith
    exact Value.induction hlist hdict hleaf e.2
  | .null => hleaf _ (fun _ h => nomatch h) fun _ h => nomatch h
  | .bool _ => hleaf _ (fun _ h => nomatch h) fun _ h => nomatch h
  | .int _ => hleaf _ (fun _ h => nomatch h) fun _ h => nomatch h
  | .float _ => hleaf _ (fun _ h => nomatch h) fun _ h => nomatch h
  | .nonFinite => hleaf _ (fun _ h => nomatch h) fun _ h => nomatch h
  | .str _ => hleaf _ (fun _ h => nomatch h) fun _ h => nomatch h

def Distinct (entries : Entries) : Prop := (Value.dict entries).distinct = true

theorem distinctEntries_iff {entries : Entries} :
    distinctEntries entries = true ↔ ∀ e ∈ entries, e.2.distinct = true := by
  induction entries with
  | nil => exact iff_of_true rfl (List.forall_mem_nil _)
  | cons e rest ih =>
    show (e.2.distinct && distinctEntries rest) = true ↔ _
    rw [Bool.and_eq_true, ih, List.forall_mem_cons]

theorem distinctList_iff {items : List Value} :
    distinctList items = true ↔ ∀ v ∈ items, v.distinct = true := by
  induction items with
  | nil => exact iff_of_true rfl (List.forall_mem_nil _)
  | cons v rest ih =>
    show (v.distinct && distinctList rest) = true ↔ _
    rw [Bool.and_eq_true, ih, List.forall_mem_cons]

theorem distinct_iff {entries : Entries} : Distinct entries ↔
    (entries.map Prod.fst).Nodup ∧ ∀ e ∈ entries, e.2.distinct = true := by
  show (decide _ && distinctEntries entries) = true ↔ _
  rw [Bool.and_eq_true, decide_eq_true_iff, distinctEntries_iff]

section

variable {entries current patch : Entries} {key : String} {v : Value}

theorem Distinct.nil : Distinct [] := rfl

theorem Distinct.get? (h : Distinct entries) (hget : get? entries key = some v) : v.distinct = true :=
  (distinct_iff.mp h).2 _ (mem_of_get? hget)

theorem Distinct.getDict (h : Distinct entries) (key : String) : Distinct (getDict entries key) := by
  unfold Negotiation.getDict
  split
  · next inner hget => exact h.get? hget
  · exact Distinct.nil

theorem nodup_set (h : (entries.map Prod.fst).Nodup) (key : String) (v : Value) :
    ((set entries key v).map Prod.fst).Nodup :=
  (Dict.set ⟨entries, h⟩ key v).nodup

theorem Distinct.set (h : Distinct entries) (hv : v.distinct = true) : Distinct (set entries key v) := by
  obtain ⟨hnodup, hvalues⟩ := distinct_iff.mp h
  have hset := nodup_set hnodup key v
  refine distinct_iff.mpr ⟨hset, fun e he => ?_⟩
  have hget : Negotiation.get? (Negotiation.set entries key v) e.1 = some e.2 := get?_of_mem hset he
  rw [get?_set] at hget
  split at hget
  · rw [← Option.some.inj hget]
    exact hv
  · exact h.get? hget

theorem Distinct.setDefault (h : Distinct entries) (hv : v.distinct = true) :
    Distinct (setDefault entries key v) := by
  unfold Negotiation.setDefault
  split
  · exact h
  · exact h.set hv

theorem Distinct.pop (h : Distinct entries) (key : String) : Distinct (pop entries key) := by
  obtain ⟨hnodup, hvalues⟩ := distinct_iff.mp h
  refine distinct_iff.mpr ⟨(List.filter_sublist.map Prod.fst).nodup hnodup, fun e he => ?_⟩
  exact hvalues e (List.mem_of_mem_filter he)

theorem distinct_mergeConfig (hpatch : ∀ e ∈ patch, ∀ o : Option Value,
      (∀ w ∈ o, w.distinct = true) → (mergeValue o e.2).distinct = true) (h : Distinct current) :
    Distinct (mergeConfig current patch) := by
  induction patch generalizing current with
  | nil => exact h
  | cons e rest ih =>
    apply ih fun e he => hpatch e (List.mem_cons_of_mem _ he)
    apply h.set
    exact hpatch e List.mem_cons_self _ fun w hw => h.get? hw

theorem distinct_mergeValue (v : Value) (hv : v.distinct = true) :
    ∀ o : Option Value, (∀ w ∈ o, w.distinct = true) → (mergeValue o v).distinct = true := by
  induction v using Value.induction with
  | hlist items ih =>
    intro o ho
    rcases o with _ | (_ | _ | _ | _ | _ | _ | _ | _) <;> exact hv
  | hdict entries ih =>
    intro o ho
    have hvalues := (distinct_iff.mp hv).2
    rcases o with _ | (_ | _ | _ | _ | _ | _ | _ | current)
    case some.dict =>
      apply distinct_mergeConfig
      · exact fun e he => ih e he (hvalues e he)
      · exact ho _ rfl
    all_goals exact hv
  | hleaf v hlist hdict =>
    intro o ho
    rw [mergeValue]
    · exact hv
    · exact fun _ entries _ h => hdict entries h

theorem Distinct.mergeConfig (h : Distinct current) (hpatch : Distinct patch) :
    Distinct (mergeConfig current patch) :=
  distinct_mergeConfig (fun e he => distinct_mergeValue e.2 ((distinct_iff.mp hpatch).2 e he)) h

end

/-! ### Equality -/

theorem Value.eqv_eq (v w : Value) : v.eqv w = match v, w with
    | .null, .null => true
    | .nonFinite, .nonFinite => true
    | .str s, .str t => s = t
    | .list items, .list items' => eqvList items items'
    | .dict entries, .dict entries' =>
      (entries'.all fun e => (Negotiation.get? entries e.1).isSome) && eqvEntries entries entries'
    | v, w => v.number?.isSome && v.number? = w.number? := by
  cases v <;> cases w <;> rfl

theorem Value.eqv_list (items items' : List Value) :
    (Value.list items).eqv (.list items') = eqvList items items' := rfl

theorem eqvEntries_iff {entries entries' : Entries} : eqvEntries entries entries' = true ↔
    ∀ e ∈ entries, ∃ w, get? entries' e.1 = some w ∧ e.2.eqv w = true := by
  induction entries with
  | nil => simp [eqvEntries]
  | cons e rest ih =>
    rw [eqvEntries, Bool.and_eq_true, ih, List.forall_mem_cons]
    apply and_congr_left'
    cases get? entries' e.1 with
    | none => simp
    | some w => simp

theorem eqvList_iff {items items' : List Value} :
    eqvList items items' = true ↔ List.Forall₂ (fun v w => v.eqv w = true) items items' := by
  induction items generalizing items' with
  | nil =>
    cases items' with
    | nil => simp [eqvList]
    | cons w rest => simp [eqvList]
  | cons v rest ih =>
    cases items' with
    | nil => simp [eqvList]
    | cons w rest' => rw [eqvList, Bool.and_eq_true, ih, List.forall₂_cons]

theorem eqv_dict_iff {entries entries' : Entries} :
    (Value.dict entries).eqv (.dict entries') = true ↔
      (∀ e ∈ entries', (get? entries e.1).isSome = true) ∧
        ∀ e ∈ entries, ∃ w, get? entries' e.1 = some w ∧ e.2.eqv w = true := by
  rw [Value.eqv_eq, Bool.and_eq_true, List.all_eq_true, eqvEntries_iff]

theorem Value.eqv_refl (v : Value) (h : v.distinct = true) : v.eqv v = true := by
  induction v using Value.induction with
  | hlist items ih =>
    rw [Value.eqv_list, eqvList_iff, List.forall₂_same]
    exact fun v hv => ih v hv (distinctList_iff.mp h v hv)
  | hdict entries ih =>
    obtain ⟨hnodup, hvalues⟩ := distinct_iff.mp h
    have hget (e : String × Value) (he : e ∈ entries) : get? entries e.1 = some e.2 :=
      get?_of_mem hnodup he
    refine eqv_dict_iff.mpr ⟨fun e he => ?_, fun e he => ⟨e.2, hget e he, ?_⟩⟩
    · rw [hget e he]
      rfl
    · exact ih e he (hvalues e he)
  | hleaf v hlist hdict =>
    cases v with
    | list items => exact absurd rfl (hlist items)
    | dict entries => exact absurd rfl (hdict entries)
    | null => rfl
    | nonFinite => rfl
    | _ => simp [Value.eqv_eq, Value.number?]

theorem Value.number?_of_eqv {v w : Value} (h : v.eqv w = true) : v.number? = w.number? := by
  cases v <;> cases w <;> simp_all [Value.eqv_eq, Value.number?]

theorem Value.eqv_of_number? {v w : Value} {q : ℚ} (hv : v.number? = some q)
    (hw : w.number? = some q) : v.eqv w = true := by
  cases v <;> cases w <;> simp_all [Value.eqv_eq, Value.number?]

theorem Value.eq_of_eqv {u v : Value} (hlist : ∀ items, u ≠ .list items)
    (hdict : ∀ entries, u ≠ .dict entries) (hnumber : u.number? = none) (h : u.eqv v = true) :
    v = u := by
  cases u with
  | list items => exact absurd rfl (hlist items)
  | dict entries => exact absurd rfl (hdict entries)
  | _ => cases v <;> simp_all [Value.eqv_eq, Value.number?]

theorem Value.eqv_trans (u : Value) : ∀ {v w : Value}, u.eqv v = true → v.eqv w = true →
    u.eqv w = true := by
  induction u using Value.induction with
  | hlist items ih =>
    intro v w huv hvw
    cases v with
    | list items' =>
      cases w with
      | list items'' =>
        rw [Value.eqv_list, eqvList_iff] at huv hvw ⊢
        induction huv generalizing items'' with
        | nil => exact hvw
        | cons hfirst _ ihrest =>
          cases hvw with
          | cons hfirst' hrest' =>
            refine .cons (ih _ List.mem_cons_self hfirst hfirst') ?_
            exact ihrest (fun v hv => ih v (List.mem_cons_of_mem _ hv)) _ hrest'
      | _ => simp [Value.eqv_eq, Value.number?] at hvw
    | _ => simp [Value.eqv_eq, Value.number?] at huv
  | hdict entries ih =>
    intro v w huv hvw
    cases v with
    | dict entries' =>
      cases w with
      | dict entries'' =>
        obtain ⟨hkeys, hvalues⟩ := eqv_dict_iff.mp huv
        obtain ⟨hkeys', hvalues'⟩ := eqv_dict_iff.mp hvw
        refine eqv_dict_iff.mpr ⟨fun e he => ?_, fun e he => ?_⟩
        · obtain ⟨v, hv⟩ := Option.isSome_iff_exists.mp (hkeys' e he)
          exact hkeys (e.1, v) (mem_of_get? hv)
        · obtain ⟨v, hv, heqv⟩ := hvalues e he
          obtain ⟨w, hw, heqv'⟩ := hvalues' (e.1, v) (mem_of_get? hv)
          exact ⟨w, hw, ih e he heqv heqv'⟩
      | _ => simp [Value.eqv_eq, Value.number?] at hvw
    | _ => simp [Value.eqv_eq, Value.number?] at huv
  | hleaf u hlist hdict =>
    intro v w huv hvw
    cases hnumber : u.number? with
    | some q =>
      have hv := Value.number?_of_eqv huv
      have hw := Value.number?_of_eqv hvw
      exact Value.eqv_of_number? hnumber (by rw [← hw, ← hv, hnumber])
    | none =>
      rw [Value.eq_of_eqv hlist hdict hnumber huv] at hvw
      exact hvw

theorem exists_of_eqv {entries entries' : Entries} {key : String} {w : Value}
    (h : (Value.dict entries).eqv (.dict entries') = true) (hget : get? entries' key = some w) :
    ∃ v, get? entries key = some v ∧ v.eqv w = true := by
  obtain ⟨hkeys, hvalues⟩ := eqv_dict_iff.mp h
  obtain ⟨v, hv⟩ := Option.isSome_iff_exists.mp (hkeys (key, w) (mem_of_get? hget))
  obtain ⟨w', hw', heqv⟩ := hvalues (key, v) (mem_of_get? hv)
  rw [hget] at hw'
  rw [Option.some.inj hw']
  exact ⟨v, hv, heqv⟩

theorem eq_str_of_eqv {v : Value} {s : String} (h : v.eqv (.str s) = true) : v = .str s := by
  cases v <;> simp_all [Value.eqv_eq, Value.number?]

theorem eq_dict_of_eqv {v : Value} {entries : Entries} (h : v.eqv (.dict entries) = true) :
    ∃ entries', v = .dict entries' := by
  cases v with
  | dict entries' => exact ⟨entries', rfl⟩
  | _ => simp [Value.eqv_eq, Value.number?] at h

/-! ### Merging again -/

/-- A merge of `patch` into `current` changes nothing at `key`. -/
def Absorbs (current : Entries) (e : String × Value) : Prop :=
  ∃ w, get? current e.1 = some w ∧ mergeValue (some w) e.2 = w

theorem mergeConfig_of_absorbs {current patch : Entries} (h : ∀ e ∈ patch, Absorbs current e) :
    mergeConfig current patch = current := by
  induction patch with
  | nil => rfl
  | cons e rest ih =>
    obtain ⟨w, hget, hmerge⟩ := h e List.mem_cons_self
    rw [mergeConfig, hget, hmerge, set_eq_self hget]
    exact ih fun e he => h e (List.mem_cons_of_mem _ he)

theorem get?_mergeConfig (current : Entries) {patch : Entries} (h : (patch.map Prod.fst).Nodup) (key : String) :
    get? (mergeConfig current patch) key = match get? patch key with
      | some v => some (mergeValue (get? current key) v)
      | none => get? current key := by
  induction patch generalizing current with
  | nil => rfl
  | cons e rest ih =>
    obtain ⟨hnot, hrest⟩ := List.nodup_cons.mp h
    rw [mergeConfig, ih _ hrest]
    by_cases hkey : e.1 = key
    · have hnone : get? rest key = none := by
        rw [← Option.not_isSome_iff_eq_none, get?_isSome_iff, ← hkey]
        exact hnot
      have hfirst : get? (e :: rest) key = some e.2 := by
        rw [get?, List.find?_cons_of_pos (by simpa using hkey)]
        rfl
      rw [hnone, hfirst, ← hkey]
      exact get?_set_self _ _ _
    · have hfirst : get? (e :: rest) key = get? rest key := by
        rw [get?, List.find?_cons_of_neg (by simpa using hkey)]
        rfl
      rw [hfirst, get?_set_of_ne (Ne.symm hkey)]

theorem get?_mergeConfig_of_some (current : Entries) {patch : Entries}
    (h : (patch.map Prod.fst).Nodup) {key : String} {v : Value} (hget : get? patch key = some v) :
    get? (mergeConfig current patch) key = some (mergeValue (get? current key) v) := by
  rw [get?_mergeConfig current h, hget]

theorem absorbs_of_mergeConfig {current patch : Entries} (hnodup : (patch.map Prod.fst).Nodup)
    (h : mergeConfig current patch = current) : ∀ e ∈ patch, Absorbs current e := by
  intro e he
  have hvalue : get? current e.1 = some (mergeValue (get? current e.1) e.2) := by
    have hget := get?_mergeConfig_of_some current hnodup (get?_of_mem hnodup he)
    rw [h] at hget
    exact hget
  refine ⟨_, hvalue, ?_⟩
  rw [← hvalue]

theorem mergeValue_of_ne_dict {v : Value} (h : ∀ entries, v ≠ .dict entries) (o : Option Value) :
    mergeValue o v = v := by
  rw [mergeValue]
  exact fun _ entries _ hv => h entries hv

theorem mergeValue_none (v : Value) : mergeValue none v = v := by
  cases v <;> rfl

theorem mergeValue_again (v : Value) (hv : v.distinct = true) (o : Option Value) :
    mergeValue (some (mergeValue o v)) v = mergeValue o v := by
  induction v using Value.induction generalizing o with
  | hlist items =>
    have hleaf (entries : Entries) : Value.list items ≠ .dict entries := fun h => (by cases h)
    rw [mergeValue_of_ne_dict hleaf, mergeValue_of_ne_dict hleaf]
  | hdict patch ih =>
    obtain ⟨hnodup, hvalues⟩ := distinct_iff.mp hv
    have hself : mergeConfig patch patch = patch := by
      refine mergeConfig_of_absorbs fun e he => ⟨e.2, get?_of_mem hnodup he, ?_⟩
      have hagain := ih e he (hvalues e he) none
      rw [mergeValue_none] at hagain
      exact hagain
    rcases o with _ | (_ | _ | _ | _ | _ | _ | _ | current)
    case some.dict =>
      refine congrArg Value.dict (mergeConfig_of_absorbs fun e he => ?_)
      refine ⟨mergeValue (get? current e.1) e.2, ?_, ih e he (hvalues e he) _⟩
      exact get?_mergeConfig_of_some current hnodup (get?_of_mem hnodup he)
    all_goals exact congrArg Value.dict hself
  | hleaf v hlist hdict => rw [mergeValue_of_ne_dict hdict, mergeValue_of_ne_dict hdict]

theorem absorbs_mergeConfig {patch : Entries} (h : Distinct patch) (current : Entries) :
    ∀ e ∈ patch, Absorbs (mergeConfig current patch) e := by
  obtain ⟨hnodup, hvalues⟩ := distinct_iff.mp h
  intro e he
  refine ⟨mergeValue (get? current e.1) e.2, ?_, mergeValue_again _ (hvalues e he) _⟩
  exact get?_mergeConfig_of_some current hnodup (get?_of_mem hnodup he)

theorem Absorbs.setDefault {current : Entries} {e : String × Value} (h : Absorbs current e)
    (key : String) (v : Value) : Absorbs (setDefault current key v) e := by
  obtain ⟨w, hget, hmerge⟩ := h
  exact ⟨w, get?_setDefault_of_some hget, hmerge⟩

theorem Absorbs.set_of_ne {current : Entries} {e : String × Value} (h : Absorbs current e)
    {key : String} (hne : e.1 ≠ key) (v : Value) : Absorbs (set current key v) e := by
  obtain ⟨w, hget, hmerge⟩ := h
  exact ⟨w, (get?_set_of_ne hne).trans hget, hmerge⟩

theorem Absorbs.deepen {current inner : Entries} {e : String × Value} (h : Absorbs current e)
    {key : String} (hkey : ∀ w, get? current key = some w → ∃ inner, w = .dict inner)
    (hdistinct : e.2.distinct = true)
    (hinner : ∀ patch, Distinct patch → (∀ e ∈ patch, Absorbs (getDict current key) e) →
      ∀ e ∈ patch, Absorbs inner e) : Absorbs (set current key (.dict inner)) e := by
  by_cases hne : e.1 = key
  · obtain ⟨w, hget, hmerge⟩ := h
    rw [hne] at hget
    obtain ⟨old, rfl⟩ := hkey w hget
    refine ⟨.dict inner, ?_, ?_⟩
    · rw [hne]
      exact get?_set_self _ _ _
    · cases hv : e.2 with
      | dict patch =>
        rw [hv] at hmerge hdistinct
        have hold : mergeConfig old patch = old := Value.dict.inj hmerge
        have habsorbs := absorbs_of_mergeConfig (distinct_iff.mp hdistinct).1 hold
        rw [← getDict_of_some hget] at habsorbs
        exact congrArg Value.dict (mergeConfig_of_absorbs (hinner patch hdistinct habsorbs))
      | _ =>
        rw [hv] at hmerge
        cases hmerge
  · exact h.set_of_ne hne _

theorem mergeConfig_except {current patch : Entries} {key : String}
    (hnodup : (patch.map Prod.fst).Nodup)
    (h : ∀ e ∈ patch, e.1 ≠ key → Absorbs current e)
    (hkey : ∀ v, get? patch key = some v → ∀ entries, v ≠ .dict entries) :
    mergeConfig current patch = match get? patch key with
      | some v => set current key v
      | none => current := by
  induction patch generalizing current with
  | nil => rfl
  | cons e rest ih =>
    obtain ⟨hnot, hrest⟩ := List.nodup_cons.mp hnodup
    by_cases he : e.1 = key
    · have hfirst : get? (e :: rest) key = some e.2 := by
        rw [get?, List.find?_cons_of_pos (by simpa using he)]
        rfl
      rw [hfirst, mergeConfig, mergeValue_of_ne_dict (hkey e.2 hfirst), he]
      refine mergeConfig_of_absorbs fun other hother => ?_
      have hne : other.1 ≠ key := by
        rintro heq
        exact hnot (he ▸ heq ▸ List.mem_map_of_mem hother)
      exact (h other (List.mem_cons_of_mem _ hother) hne).set_of_ne hne _
    · have hfirst : get? (e :: rest) key = get? rest key := by
        rw [get?, List.find?_cons_of_neg (by simpa using he)]
        rfl
      obtain ⟨w, hget, hmerge⟩ := h e List.mem_cons_self he
      rw [hfirst, mergeConfig, hget, hmerge, set_eq_self hget]
      refine ih hrest (fun other hother => h other (List.mem_cons_of_mem _ hother)) fun v hv => ?_
      exact hkey v (hfirst.trans hv)

end Negotiation
