import SglangOmni.StageIo.Tensors

/-! What `restore_tensors` makes of what the extractions took apart: a tensor comes back to its place
exactly if no other tensor lies at a place that is written as the same path. -/

namespace StageIo

open Lib

variable {α : Type} {takes : Tensor → Bool} {copy : Tensor → Tensor} {tensors : Dict String Tensor}

theorem spell_cons (path : String) (step : Step) (steps : List Step) :
    spell path (step :: steps) = spell (step.path path) steps := rfl

/-! ### The tensors that are taken out -/

mutual

theorem of_get?_extractWith (obj : Data α) (path : String) {q : String} {t : Tensor}
    (h : (extractWith takes copy obj path).2.get? q = some t) :
    ∃ steps, (steps, t) ∈ tensorsAt obj ∧ takes t = true ∧ spell path steps = q := by
  cases obj with
  | tensor t' =>
    unfold extractWith at h
    split at h
    · next htakes =>
      rw [Dict.get?_set] at h
      split at h
      · next he =>
        cases h
        exact ⟨[], List.mem_singleton_self _, htakes, he.symm⟩
      · cases h
    · cases h
  | dict entries =>
    exact (of_get?_extractEntries entries path ∅ h).resolve_left nofun
  | list items =>
    exact (of_get?_extractItems items path 0 ∅ h).resolve_left nofun
  | tuple items =>
    exact (of_get?_extractItems items path 0 ∅ h).resolve_left nofun
  | str _ => cases h
  | int _ => cases h
  | leaf _ => cases h

theorem of_get?_extractEntries (entries : List (String × Data α)) (path : String)
    (tensors : Dict String Tensor) {q : String} {t : Tensor}
    (h : (extractEntries takes copy entries path tensors).2.get? q = some t) :
    tensors.get? q = some t ∨
      ∃ steps, (steps, t) ∈ entriesAt entries ∧ takes t = true ∧ spell path steps = q := by
  cases entries with
  | nil => exact .inl h
  | cons entry rest =>
    obtain ⟨key, value⟩ := entry
    rcases of_get?_extractEntries rest path _ h with hold | ⟨steps, hsteps, htakes, hspell⟩
    · rw [Dict.get?_update, Option.or_eq_some_iff] at hold
      rcases hold with hchild | ⟨-, hold⟩
      · obtain ⟨steps, hsteps, htakes, hspell⟩ := of_get?_extractWith value _ hchild
        exact .inr ⟨.key key :: steps,
          List.mem_append_left _ (List.mem_map.mpr ⟨(steps, t), hsteps, rfl⟩), htakes, hspell⟩
      · exact .inl hold
    · exact .inr ⟨steps, List.mem_append_right _ hsteps, htakes, hspell⟩

theorem of_get?_extractItems (items : List (Data α)) (path : String) (idx : Nat)
    (tensors : Dict String Tensor) {q : String} {t : Tensor}
    (h : (extractItems takes copy items path idx tensors).2.get? q = some t) :
    tensors.get? q = some t ∨
      ∃ steps, (steps, t) ∈ itemsAt items idx ∧ takes t = true ∧ spell path steps = q := by
  cases items with
  | nil => exact .inl h
  | cons value rest =>
    rcases of_get?_extractItems rest path (idx + 1) _ h with hold | ⟨steps, hsteps, htakes, hspell⟩
    · rw [Dict.get?_update, Option.or_eq_some_iff] at hold
      rcases hold with hchild | ⟨-, hold⟩
      · obtain ⟨steps, hsteps, htakes, hspell⟩ := of_get?_extractWith value _ hchild
        exact .inr ⟨.item idx :: steps,
          List.mem_append_left _ (List.mem_map.mpr ⟨(steps, t), hsteps, rfl⟩), htakes, hspell⟩
      · exact .inl hold
    · exact .inr ⟨steps, List.mem_append_right _ hsteps, htakes, hspell⟩

end

mutual

theorem get?_extractWith_isSome (obj : Data α) (path : String) {steps : List Step} {t : Tensor}
    (h : (steps, t) ∈ tensorsAt obj) (htakes : takes t = true) :
    ((extractWith takes copy obj path).2.get? (spell path steps)).isSome := by
  cases obj with
  | tensor t' =>
    obtain ⟨rfl, rfl⟩ := Prod.mk.inj (List.mem_singleton.mp h)
    unfold extractWith
    rw [if_pos htakes]
    exact Option.isSome_iff_exists.mpr ⟨t, Dict.get?_set_self _ _ _⟩
  | dict entries => exact get?_extractEntries_isSome entries path ∅ (.inr ⟨steps, t, h, htakes, rfl⟩)
  | list items => exact get?_extractItems_isSome items path 0 ∅ (.inr ⟨steps, t, h, htakes, rfl⟩)
  | tuple items => exact get?_extractItems_isSome items path 0 ∅ (.inr ⟨steps, t, h, htakes, rfl⟩)
  | str _ => cases h
  | int _ => cases h
  | leaf _ => cases h

theorem get?_extractEntries_isSome (entries : List (String × Data α)) (path : String)
    (tensors : Dict String Tensor) {q : String}
    (h : (tensors.get? q).isSome ∨
      ∃ steps t, (steps, t) ∈ entriesAt entries ∧ takes t = true ∧ spell path steps = q) :
    ((extractEntries takes copy entries path tensors).2.get? q).isSome := by
  cases entries with
  | nil => exact h.resolve_right fun ⟨_, _, hmem, _⟩ => absurd hmem List.not_mem_nil
  | cons entry rest =>
    obtain ⟨key, value⟩ := entry
    refine get?_extractEntries_isSome rest path _ ?_
    rw [Dict.get?_update, Option.isSome_or, Bool.or_eq_true]
    rcases h with hold | ⟨steps, t, hmem, htakes, rfl⟩
    · exact .inl (.inr hold)
    · rcases List.mem_append.mp hmem with hhere | hrest
      · obtain ⟨⟨steps', t'⟩, hvalue, he⟩ := List.mem_map.mp hhere
        obtain ⟨rfl, rfl⟩ := Prod.mk.inj he
        exact .inl (.inl (get?_extractWith_isSome value _ hvalue htakes))
      · exact .inr ⟨steps, t, hrest, htakes, rfl⟩

theorem get?_extractItems_isSome (items : List (Data α)) (path : String) (idx : Nat)
    (tensors : Dict String Tensor) {q : String}
    (h : (tensors.get? q).isSome ∨
      ∃ steps t, (steps, t) ∈ itemsAt items idx ∧ takes t = true ∧ spell path steps = q) :
    ((extractItems takes copy items path idx tensors).2.get? q).isSome := by
  cases items with
  | nil => exact h.resolve_right fun ⟨_, _, hmem, _⟩ => absurd hmem List.not_mem_nil
  | cons value rest =>
    refine get?_extractItems_isSome rest path (idx + 1) _ ?_
    rw [Dict.get?_update, Option.isSome_or, Bool.or_eq_true]
    rcases h with hold | ⟨steps, t, hmem, htakes, rfl⟩
    · exact .inl (.inr hold)
    · rcases List.mem_append.mp hmem with hhere | hrest
      · obtain ⟨⟨steps', t'⟩, hvalue, he⟩ := List.mem_map.mp hhere
        obtain ⟨rfl, rfl⟩ := Prod.mk.inj he
        exact .inl (.inl (get?_extractWith_isSome value _ hvalue htakes))
      · exact .inr ⟨steps, t, hrest, htakes, rfl⟩

end

/-! ### Putting them back -/

def Has (takes : Tensor → Bool) (tensors : Dict String Tensor) (path : String)
    (places : List (List Step × Tensor)) : Prop :=
  ∀ steps t, (steps, t) ∈ places → takes t = true → tensors.get? (spell path steps) = some t

theorem has_append {path : String} {places places' : List (List Step × Tensor)} :
    Has takes tensors path (places ++ places') ↔ Has takes tensors path places ∧ Has takes tensors path places' := by
  constructor
  · exact fun h => ⟨fun steps t hmem => h steps t (List.mem_append_left _ hmem),
      fun steps t hmem => h steps t (List.mem_append_right _ hmem)⟩
  · rintro ⟨h, h'⟩ steps t hmem
    exact (List.mem_append.mp hmem).elim (h steps t) (h' steps t)

theorem has_map {path : String} {places : List (List Step × Tensor)} (step : Step) :
    Has takes tensors path (places.map fun place => (step :: place.1, place.2))
      ↔ Has takes tensors (step.path path) places := by
  constructor
  · exact fun h steps t hmem => h (step :: steps) t (List.mem_map.mpr ⟨(steps, t), hmem, rfl⟩)
  · rintro h steps t hmem
    obtain ⟨⟨steps', t'⟩, hmem', he⟩ := List.mem_map.mp hmem
    obtain ⟨rfl, rfl⟩ := Prod.mk.inj he
    exact h steps' t' hmem'

theorem extractEntries_cons (key : String) (value : Data α) (rest : List (String × Data α)) (path : String)
    (taken : Dict String Tensor) :
    (extractEntries takes copy ((key, value) :: rest) path taken).1
      = (key, (extractWith takes copy value (childPath path key)).1)
        :: (extractEntries takes copy rest path
          (taken.update (extractWith takes copy value (childPath path key)).2)).1 := rfl

theorem extractItems_cons (value : Data α) (rest : List (Data α)) (path : String) (idx : Nat)
    (taken : Dict String Tensor) :
    (extractItems takes copy (value :: rest) path idx taken).1
      = (extractWith takes copy value (itemPath path idx)).1
        :: (extractItems takes copy rest path (idx + 1)
          (taken.update (extractWith takes copy value (itemPath path idx)).2)).1 := rfl

theorem lookup_extractEntries (entries : List (String × Data α)) (path key : String)
    (tensors : Dict String Tensor) :
    ((extractEntries takes copy entries path tensors).1.lookup key).isNone = (entries.lookup key).isNone := by
  induction entries generalizing tensors with
  | nil => rfl
  | cons entry rest ih =>
    obtain ⟨name, value⟩ := entry
    unfold extractEntries
    simp only [List.lookup_cons]
    split
    · rfl
    · exact ih _

theorem and_of_exists {β γ : Type} {p : Option β} {q : Option γ} {b : β} {c : γ} :
    (∃ b', p = some b' ∧ ∃ c', q = some c' ∧ b' = b ∧ c' = c) ↔ p = some b ∧ q = some c := by
  constructor
  · rintro ⟨b', hb, c', hc, rfl, rfl⟩
    exact ⟨hb, hc⟩
  · rintro ⟨hb, hc⟩
    exact ⟨b, hb, c, hc, rfl, rfl⟩

mutual

theorem restoreTensors_extractWith (obj : Data α) (path : String) (h : isPlain obj = true) :
    restoreTensors tensors (extractWith takes copy obj path).1 = some (copyWith takes copy obj)
      ↔ Has takes tensors path (tensorsAt obj) := by
  cases obj with
  | tensor t =>
    unfold extractWith copyWith
    cases htakes : takes t with
    | false => simp [restoreTensors, Has, tensorsAt, htakes]
    | true =>
      simp only [if_true, placeholder, restoreTensors, List.lookup_cons, beq_self_eq_true,
        Option.map_eq_some_iff, Data.tensor.injEq, exists_eq_right]
      simp [Has, tensorsAt, htakes, spell]
  | dict entries =>
    unfold isPlain at h
    obtain ⟨hkey, hentries⟩ := Bool.and_eq_true_iff.mp h
    have hnone : (extractEntries takes copy entries path ∅).1.lookup tensorPlaceholder = none := by
      rw [← lookup_extractEntries entries path tensorPlaceholder ∅, Option.isNone_iff_eq_none] at hkey
      exact hkey
    unfold extractWith copyWith
    simp only [restoreTensors, hnone, Option.map_eq_some_iff, Data.dict.injEq, exists_eq_right]
    exact restoreEntries_extractEntries entries path ∅ hentries
  | list items =>
    unfold extractWith copyWith
    simp only [restoreTensors, Option.map_eq_some_iff, Data.list.injEq, exists_eq_right]
    exact restoreItems_extractItems items path 0 ∅ h
  | tuple items =>
    unfold extractWith copyWith
    simp only [restoreTensors, Option.map_eq_some_iff, Data.tuple.injEq, exists_eq_right]
    exact restoreItems_extractItems items path 0 ∅ h
  | str text => simp [extractWith, copyWith, restoreTensors, Has, tensorsAt]
  | int n => simp [extractWith, copyWith, restoreTensors, Has, tensorsAt]
  | leaf value => simp [extractWith, copyWith, restoreTensors, Has, tensorsAt]

theorem restoreEntries_extractEntries (entries : List (String × Data α)) (path : String)
    (taken : Dict String Tensor) (h : arePlainEntries entries = true) :
    restoreEntries tensors (extractEntries takes copy entries path taken).1
      = some (copyEntries takes copy entries) ↔ Has takes tensors path (entriesAt entries) := by
  cases entries with
  | nil => simp [extractEntries, restoreEntries, copyEntries, Has, entriesAt]
  | cons entry rest =>
    obtain ⟨key, value⟩ := entry
    unfold arePlainEntries at h
    obtain ⟨hvalue, hrest⟩ := Bool.and_eq_true_iff.mp h
    unfold entriesAt
    rw [has_append, has_map, ← restoreTensors_extractWith value _ hvalue,
      ← restoreEntries_extractEntries rest path
        (taken.update (extractWith takes copy value (childPath path key)).2) hrest]
    rw [extractEntries_cons, show copyEntries takes copy ((key, value) :: rest)
      = (key, copyWith takes copy value) :: copyEntries takes copy rest from rfl]
    simp only [restoreEntries, bind, Option.bind_eq_some_iff, pure, Option.some.injEq, List.cons.injEq,
      Prod.mk.injEq, true_and]
    exact and_of_exists

theorem restoreItems_extractItems (items : List (Data α)) (path : String) (idx : Nat)
    (taken : Dict String Tensor) (h : arePlainItems items = true) :
    restoreItems tensors (extractItems takes copy items path idx taken).1
      = some (copyItems takes copy items) ↔ Has takes tensors path (itemsAt items idx) := by
  cases items with
  | nil => simp [extractItems, restoreItems, copyItems, Has, itemsAt]
  | cons value rest =>
    unfold arePlainItems at h
    obtain ⟨hvalue, hrest⟩ := Bool.and_eq_true_iff.mp h
    unfold itemsAt
    rw [has_append, has_map, ← restoreTensors_extractWith value _ hvalue,
      ← restoreItems_extractItems rest path (idx + 1)
        (taken.update (extractWith takes copy value (itemPath path idx)).2) hrest]
    rw [extractItems_cons, show copyItems takes copy (value :: rest)
      = copyWith takes copy value :: copyItems takes copy rest from rfl]
    simp only [restoreItems, bind, Option.bind_eq_some_iff, pure, Option.some.injEq, List.cons.injEq]
    exact and_of_exists

end

mutual

theorem copyWith_eq (obj : Data α)
    (h : ∀ steps t, (steps, t) ∈ tensorsAt obj → takes t = true ∨ copy t = t) :
    copyWith takes copy obj = obj := by
  cases obj with
  | tensor t =>
    unfold copyWith
    congr 1
    split
    · rfl
    · next hnot => exact (h [] t (List.mem_singleton_self _)).resolve_left hnot
  | dict entries => exact congrArg Data.dict (copyEntries_eq entries h)
  | list items => exact congrArg Data.list (copyItems_eq items 0 h)
  | tuple items => exact congrArg Data.tuple (copyItems_eq items 0 h)
  | str text => rfl
  | int n => rfl
  | leaf value => rfl

theorem copyEntries_eq (entries : List (String × Data α))
    (h : ∀ steps t, (steps, t) ∈ entriesAt entries → takes t = true ∨ copy t = t) :
    copyEntries takes copy entries = entries := by
  cases entries with
  | nil => rfl
  | cons entry rest =>
    obtain ⟨key, value⟩ := entry
    have hvalue := copyWith_eq value fun steps t hmem =>
      h (.key key :: steps) t (List.mem_append_left _ (List.mem_map.mpr ⟨(steps, t), hmem, rfl⟩))
    have hrest := copyEntries_eq rest fun steps t hmem => h steps t (List.mem_append_right _ hmem)
    exact congrArg₂ (fun value rest => (key, value) :: rest) hvalue hrest

theorem copyItems_eq (items : List (Data α)) (idx : Nat)
    (h : ∀ steps t, (steps, t) ∈ itemsAt items idx → takes t = true ∨ copy t = t) :
    copyItems takes copy items = items := by
  cases items with
  | nil => rfl
  | cons value rest =>
    have hvalue := copyWith_eq value fun steps t hmem =>
      h (.item idx :: steps) t (List.mem_append_left _ (List.mem_map.mpr ⟨(steps, t), hmem, rfl⟩))
    have hrest := copyItems_eq rest (idx + 1) fun steps t hmem => h steps t (List.mem_append_right _ hmem)
    exact congrArg₂ (fun value rest => value :: rest) hvalue hrest

end

theorem has_extractWith_iff (obj : Data α) :
    Has takes (extractWith takes copy obj "").2 "" (tensorsAt obj) ↔ PathsApart takes obj := by
  constructor
  · intro h steps t steps' t' hmem hmem' htakes htakes' hspell
    have hget := h steps t hmem htakes
    rw [hspell, h steps' t' hmem' htakes'] at hget
    exact (Option.some.inj hget).symm
  · intro h steps t hmem htakes
    obtain ⟨t', hget⟩ := Option.isSome_iff_exists.mp (get?_extractWith_isSome obj "" hmem htakes)
    obtain ⟨steps', hmem', htakes', hspell⟩ := of_get?_extractWith obj "" hget
    rw [hget, h steps t steps' t' hmem hmem' htakes htakes' hspell.symm]

/-- Both extractions are undone exactly if no two tensors that they take lie at places that are written
alike; the one for CUDA tensors where each CPU tensor owns its storage. -/
theorem restoreTensors_iff (obj : Data α) (h : isPlain obj = true) :
    (restoreTensors (extractTensors obj).2 (extractTensors obj).1 = some obj
        ↔ PathsApart (fun _ => true) obj)
      ∧ ((∀ steps t, (steps, t) ∈ tensorsAt obj → t.isCuda = true ∨ t.compact = t) →
        (restoreTensors (extractCudaTensors obj).2 (extractCudaTensors obj).1 = some obj
          ↔ PathsApart Tensor.isCuda obj)) := by
  constructor
  · have hiff : restoreTensors (extractTensors obj).2 (extractTensors obj).1
        = some (copyWith (fun _ => true) id obj) ↔ PathsApart (fun _ => true) obj :=
      (restoreTensors_extractWith obj "" h).trans (has_extractWith_iff obj)
    rw [copyWith_eq obj fun _ _ _ => .inl rfl] at hiff
    exact hiff
  · intro hown
    have hiff : restoreTensors (extractCudaTensors obj).2 (extractCudaTensors obj).1
        = some (copyWith Tensor.isCuda Tensor.compact obj) ↔ PathsApart Tensor.isCuda obj :=
      (restoreTensors_extractWith obj "" h).trans (has_extractWith_iff obj)
    rw [copyWith_eq obj hown] at hiff
    exact hiff

def tensorPair : Data Unit := .dict [("x", .list [.tensor (byteTensor 1), .tensor (byteTensor 2)])]

theorem restoreTensors_iff_tensorPair :
    restoreTensors (extractTensors tensorPair).2 (extractTensors tensorPair).1 = some tensorPair
      ∧ restoreTensors (extractCudaTensors tensorPair).2 (extractCudaTensors tensorPair).1
        = some tensorPair := by
  have hplaces : tensorsAt tensorPair
      = [([.key "x", .item 0], byteTensor 1), ([.key "x", .item 1], byteTensor 2)] := rfl
  have hcuda : ∀ steps t, (steps, t) ∈ tensorsAt tensorPair → t.isCuda = true ∨ t.compact = t := by
    intro steps t hmem
    rw [hplaces] at hmem
    simp only [List.mem_cons, Prod.mk.injEq, List.not_mem_nil, or_false] at hmem
    obtain ⟨-, rfl⟩ | ⟨-, rfl⟩ := hmem <;> exact .inl rfl
  have happart : ∀ takes, PathsApart takes tensorPair := by
    intro takes steps t steps' t' hmem hmem' _ _ hspell
    rw [hplaces] at hmem hmem'
    simp only [List.mem_cons, Prod.mk.injEq, List.not_mem_nil, or_false] at hmem hmem'
    obtain ⟨rfl, rfl⟩ | ⟨rfl, rfl⟩ := hmem <;> obtain ⟨rfl, rfl⟩ | ⟨rfl, rfl⟩ := hmem'
    · rfl
    · exact absurd hspell (by decide +kernel)
    · exact absurd hspell (by decide +kernel)
    · rfl
  have h := restoreTensors_iff tensorPair (by decide +kernel)
  exact ⟨h.1.mpr (happart _), (h.2 hcuda).mpr (happart _)⟩

/-- A key with a dot beside the dicts that it could be a path through. -/
def dottedKey : Data Unit :=
  .dict [("a.b", .tensor (byteTensor 1)), ("a", .dict [("b", .tensor (byteTensor 2))])]

/-- The second tensor comes back in both places. -/
theorem restoreTensors_dottedKey :
    isPlain dottedKey = true
      ∧ restoreTensors (extractTensors dottedKey).2 (extractTensors dottedKey).1
        = some (.dict [("a.b", .tensor (byteTensor 2)), ("a", .dict [("b", .tensor (byteTensor 2))])])
      ∧ restoreTensors (extractTensors dottedKey).2 (extractTensors dottedKey).1 ≠ some dottedKey
      ∧ restoreTensors (extractCudaTensors dottedKey).2 (extractCudaTensors dottedKey).1
        ≠ some dottedKey := by
  have hback : restoreTensors (extractTensors dottedKey).2 (extractTensors dottedKey).1
      = some (.dict [("a.b", .tensor (byteTensor 2)), ("a", .dict [("b", .tensor (byteTensor 2))])]) := rfl
  have hcuda : restoreTensors (extractCudaTensors dottedKey).2 (extractCudaTensors dottedKey).1
      = some (.dict [("a.b", .tensor (byteTensor 2)), ("a", .dict [("b", .tensor (byteTensor 2))])]) := rfl
  have hne : (.dict [("a.b", .tensor (byteTensor 2)), ("a", .dict [("b", .tensor (byteTensor 2))])] : Data Unit)
      ≠ dottedKey := by
    have hbytes : byteTensor 2 ≠ byteTensor 1 := by decide
    simp [dottedKey, hbytes]
  exact ⟨by decide +kernel, hback, fun h => hne (Option.some.inj (hback.symm.trans h)),
    fun h => hne (Option.some.inj (hcuda.symm.trans h))⟩

end StageIo
