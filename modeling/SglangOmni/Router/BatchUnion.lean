import SglangOmni.Router.Batch

/-! What the loop over a batch's items gathers: the union over the routable items, in whatever order they
come. -/

namespace Router

open Lib

section

variable {α : Type} [DecidableEq α]

theorem mem_insertOnce {values : List α} {value x : α} : x ∈ insertOnce values value ↔ x ∈ values ∨ x = value := by
  unfold insertOnce
  split
  · next hmem => exact ⟨.inl, fun h => h.elim id fun he => he ▸ hmem⟩
  · rw [List.mem_append, List.mem_singleton]

theorem mem_foldl_insertOnce {added values : List α} {x : α} :
    x ∈ added.foldl insertOnce values ↔ x ∈ values ∨ x ∈ added := by
  induction added generalizing values with
  | nil => simp
  | cons value added ih =>
    rw [List.foldl_cons, ih, mem_insertOnce, List.mem_cons, or_assoc]

theorem mem_elim_insertOnce {values : List α} {value : Option α} {x : α} :
    x ∈ value.elim values (insertOnce values) ↔ x ∈ values ∨ value = some x := by
  cases value with
  | none => simp
  | some value =>
    rw [Option.elim_some, mem_insertOnce, Option.some.injEq, eq_comm]

theorem mem_dedup {values : List α} {x : α} : x ∈ dedup values ↔ x ∈ values := by
  induction values with
  | nil => exact Iff.rfl
  | cons a rest ih =>
    cases rest with
    | nil => exact Iff.rfl
    | cons b rest =>
      rw [dedup]
      split
      · next heq =>
        subst heq
        rw [ih]
        simp
      · simp only [List.mem_cons, ih]

end

def Among (items : List BatchSpeechFields) (p : BatchSpeechFields → Prop) : Prop :=
  ∃ item ∈ items, item.routingFieldsValid = true ∧ p item

section

variable {items items' : List BatchSpeechFields} {item : BatchSpeechFields} {p : BatchSpeechFields → Prop}

theorem not_among_nil : ¬Among [] p := fun ⟨_, hmem, _⟩ => by cases hmem

theorem among_concat : Among (items ++ [item]) p ↔ Among items p ∨ (item.routingFieldsValid = true ∧ p item) := by
  constructor
  · rintro ⟨other, hmem, hp⟩
    rcases List.mem_append.mp hmem with hmem | hmem
    · exact .inl ⟨other, hmem, hp⟩
    · exact .inr (List.mem_singleton.mp hmem ▸ hp)
  · rintro (⟨other, hmem, hp⟩ | hp)
    · exact ⟨other, List.mem_append_left _ hmem, hp⟩
    · exact ⟨item, List.mem_append_right _ List.mem_cons_self, hp⟩

theorem among_skip (h : item.routingFieldsValid = false) : Among (items ++ [item]) p ↔ Among items p := by
  rw [among_concat]
  simp [h]

theorem among_take (h : item.routingFieldsValid = true) : Among (items ++ [item]) p ↔ Among items p ∨ p item := by
  rw [among_concat]
  simp [h]

theorem among_perm (h : items.Perm items') : Among items p ↔ Among items' p :=
  ⟨fun ⟨item, hmem, hp⟩ => ⟨item, h.mem_iff.mp hmem, hp⟩,
    fun ⟨item, hmem, hp⟩ => ⟨item, h.mem_iff.mpr hmem, hp⟩⟩

end

/-! ### What one item requires -/

variable {routeModel : Option String} {defaults : BatchDefaults} {named : Bool}
  {items : List BatchSpeechFields} {item : BatchSpeechFields} {s s' : BatchUnion}

def selectionOf (routeModel : Option String) (defaults : BatchDefaults) (item : BatchSpeechFields) :
    Except HttpFault ModelSelection :=
  modelSelection (item.fields.model.join.or defaults.fields.model.join) routeModel

def formatOf (defaults : BatchDefaults) (item : BatchSpeechFields) : Option SpeechResponseFormat :=
  item.fields.responseFormat.join.elim (some defaults.format) responseFormat

def taskOf (defaults : BatchDefaults) (item : BatchSpeechFields) : Option SpeechTask :=
  item.fields.task.join.elim defaults.task task

def formsOf (defaults : BatchDefaults) (item : BatchSpeechFields) : List ReferenceForm :=
  effectiveReferenceForms defaults.fields item.fields

def voiceNamed (defaults : BatchDefaults) (item : BatchSpeechFields) : Bool :=
  formsOf defaults item = [ReferenceForm.none] &&
    isNamed (item.fields.voice.join.or defaults.fields.voice.join)

structure Unites (routeModel : Option String) (defaults : BatchDefaults) (named : Bool)
    (items : List BatchSpeechFields) (s : BatchUnion) : Prop where
  models : ∀ x, x ∈ s.models ↔ Among items fun item => selectionOf routeModel defaults item = .ok x
  selected : ∀ item ∈ items, item.routingFieldsValid = true → ∃ x, selectionOf routeModel defaults item = .ok x
  added : s.defaultModelAdded = true ↔ Among items fun item => item.fields.model.join = none
  kept : s.defaultModelAdded = false → s.defaultModel = defaults.fields.model.join
  formats : ∀ x, x ∈ s.formats ↔ x = defaults.format ∨ Among items fun item => formatOf defaults item = some x
  tasks : ∀ x, x ∈ s.tasks ↔ Among items fun item => taskOf defaults item = some x
  references : ∀ x, x ∈ s.references ↔
    Among items fun item => voiceNamed defaults item = false ∧ x ∈ formsOf defaults item
  namedVoice : s.namedVoice = true ↔ named = true ∨ Among items fun item => voiceNamed defaults item = true

theorem Unites.initial : Unites routeModel defaults named []
    { defaultModel := defaults.fields.model.join, formats := [defaults.format], namedVoice := named } where
  models x := by simp [not_among_nil]
  selected item hmem := by cases hmem
  added := by simp [not_among_nil]
  kept _ := rfl
  formats x := by simp [not_among_nil]
  tasks x := by simp [not_among_nil]
  references x := by simp [not_among_nil]
  namedVoice := by simp [not_among_nil]

theorem addModel_cases (hkept : s.defaultModelAdded = false → s.defaultModel = defaults.fields.model.join)
    (h : addModel routeModel s item.fields.model.join = .ok s') :
    (∃ x, selectionOf routeModel defaults item = .ok x ∧
      s' = { s with
        models := s.models ++ [x]
        defaultModel := if item.fields.model.join = none then none else s.defaultModel
        defaultModelAdded := s.defaultModelAdded || item.fields.model.join.isNone }) ∨
    (item.fields.model.join = none ∧ s.defaultModelAdded = true ∧ s' = s) := by
  unfold addModel at h
  split at h
  · next model hmodel =>
    obtain ⟨x, hx, h⟩ := bind_eq_ok.mp h
    cases h
    refine .inl ⟨x, ?_, ?_⟩
    · rw [selectionOf, hmodel]
      exact hx
    · simp [hmodel]
  · next hmodel =>
    split at h
    · next hadded =>
      cases h
      exact .inr ⟨hmodel, hadded, rfl⟩
    · next hadded =>
      obtain ⟨x, hx, h⟩ := bind_eq_ok.mp h
      cases h
      refine .inl ⟨x, ?_, ?_⟩
      · rw [selectionOf, hmodel, Option.none_or, ← hkept (by simpa using hadded)]
        exact hx
      · simp [hmodel]

theorem addItem_skip (h : item.routingFieldsValid = false) : addItem routeModel defaults s item = .ok s :=
  if_pos h

theorem addItem_take (h : item.routingFieldsValid = true) :
    addItem routeModel defaults s item =
      addModel routeModel s item.fields.model.join >>= fun s =>
        .ok (addReferences defaults (addTask defaults (addFormat defaults s item.fields.responseFormat.join)
          item.fields.task.join) item.fields) :=
  if_neg (by simp [h])

theorem addRest_eq (s : BatchUnion) (item : BatchSpeechFields) :
    addReferences defaults (addTask defaults (addFormat defaults s item.fields.responseFormat.join)
      item.fields.task.join) item.fields =
      { s with
        formats := (formatOf defaults item).elim s.formats (insertOnce s.formats)
        tasks := (taskOf defaults item).elim s.tasks (insertOnce s.tasks)
        references := if voiceNamed defaults item then s.references
          else (formsOf defaults item).foldl insertOnce s.references
        namedVoice := s.namedVoice || voiceNamed defaults item } := by
  have hformat : addFormat defaults s item.fields.responseFormat.join =
      { s with formats := (formatOf defaults item).elim s.formats (insertOnce s.formats) } := by
    unfold addFormat formatOf
    cases item.fields.responseFormat.join <;> rfl
  have htask : ∀ s : BatchUnion, addTask defaults s item.fields.task.join =
      { s with tasks := (taskOf defaults item).elim s.tasks (insertOnce s.tasks) } := by
    intro s
    unfold addTask taskOf
    cases item.fields.task.join <;> rfl
  have hreferences : ∀ s : BatchUnion, addReferences defaults s item.fields =
      { s with
        references := if voiceNamed defaults item then s.references
          else (formsOf defaults item).foldl insertOnce s.references
        namedVoice := s.namedVoice || voiceNamed defaults item } := by
    intro s
    have hnamed : (¬effectiveReferenceForms defaults.fields item.fields ≠ [ReferenceForm.none] ∧
        isNamed (item.fields.voice.join.or defaults.fields.voice.join) = true) ↔
          voiceNamed defaults item = true := by
      rw [voiceNamed, formsOf, Bool.and_eq_true, decide_eq_true_iff, ne_eq, not_not]
    unfold addReferences
    dsimp only
    by_cases hvoice : voiceNamed defaults item = true
    · rw [if_pos (hnamed.mpr hvoice), hvoice]
      simp
    · rw [if_neg fun h => hvoice (hnamed.mp h), Bool.not_eq_true _ |>.mp hvoice]
      simp [formsOf]
  rw [hformat, htask, hreferences]

theorem Unites.add (h : Unites routeModel defaults named items s)
    (hadd : addItem routeModel defaults s item = .ok s') :
    Unites routeModel defaults named (items ++ [item]) s' := by
  cases hvalid : item.routingFieldsValid with
  | false =>
    rw [addItem_skip hvalid] at hadd
    cases hadd
    obtain ⟨hmodels, hselected, hadded, hkept, hformats, htasks, hreferences, hvoice⟩ := h
    refine ⟨fun x => ?_, fun other hmem hother => ?_, ?_, hkept, fun x => ?_, fun x => ?_, fun x => ?_, ?_⟩
    · rw [among_skip hvalid]
      exact hmodels x
    · rcases List.mem_append.mp hmem with hmem | hmem
      · exact hselected other hmem hother
      · rw [List.mem_singleton.mp hmem, hvalid] at hother
        cases hother
    · rw [among_skip hvalid]
      exact hadded
    · rw [among_skip hvalid]
      exact hformats x
    · rw [among_skip hvalid]
      exact htasks x
    · rw [among_skip hvalid]
      exact hreferences x
    · rw [among_skip hvalid]
      exact hvoice
  | true =>
    rw [addItem_take hvalid] at hadd
    obtain ⟨s₁, hmodel, hadd⟩ := bind_eq_ok.mp hadd
    rw [addRest_eq] at hadd
    cases hadd
    -- a selection that is not added now was added for an earlier item
    have hselection : ∃ x, selectionOf routeModel defaults item = .ok x ∧
        ∀ y, y ∈ s₁.models ↔ y ∈ s.models ∨ y = x := by
      rcases addModel_cases h.kept hmodel with ⟨x, hx, rfl⟩ | ⟨hnone, hadded, rfl⟩
      · exact ⟨x, hx, fun y => by simp⟩
      · obtain ⟨earlier, hmem, hearlier, hnone'⟩ := h.added.mp hadded
        have hsame : selectionOf routeModel defaults item = selectionOf routeModel defaults earlier := by
          rw [selectionOf, selectionOf, hnone, hnone']
        obtain ⟨x, hx⟩ := h.selected earlier hmem hearlier
        refine ⟨x, hsame.trans hx, fun y => ⟨.inl, fun hy => hy.elim id ?_⟩⟩
        rintro rfl
        exact (h.models y).mpr ⟨earlier, hmem, hearlier, hx⟩
    have hsame : s₁.formats = s.formats ∧ s₁.tasks = s.tasks ∧ s₁.references = s.references ∧
        s₁.namedVoice = s.namedVoice := by
      rcases addModel_cases h.kept hmodel with ⟨x, -, rfl⟩ | ⟨-, -, rfl⟩ <;> exact ⟨rfl, rfl, rfl, rfl⟩
    obtain ⟨x, hx, hmodels⟩ := hselection
    obtain ⟨hformats, htasks, hreferences, hnamed⟩ := hsame
    refine ⟨fun y => ?_, fun other hmem hother => ?_, ?_, fun hnot => ?_, fun y => ?_, fun y => ?_, fun y => ?_, ?_⟩
    · rw [among_take hvalid, ← h.models y, hx, Except.ok.injEq, hmodels y, eq_comm]
    · rcases List.mem_append.mp hmem with hmem | hmem
      · exact h.selected other hmem hother
      · exact ⟨x, List.mem_singleton.mp hmem ▸ hx⟩
    · rw [among_take hvalid, ← h.added]
      rcases addModel_cases h.kept hmodel with ⟨z, -, rfl⟩ | ⟨hnone, hadded, rfl⟩
      · simp
      · simp [hnone, hadded]
    · rcases addModel_cases h.kept hmodel with ⟨z, -, rfl⟩ | ⟨-, -, rfl⟩
      · simp only [Bool.or_eq_false_iff, Option.isNone_eq_false_iff] at hnot
        have hsome : item.fields.model.join ≠ none := Option.isSome_iff_ne_none.mp hnot.2
        rw [if_neg hsome]
        exact h.kept hnot.1
      · exact h.kept hnot
    · rw [among_take hvalid, mem_elim_insertOnce, hformats, h.formats y, or_assoc]
    · rw [among_take hvalid, mem_elim_insertOnce, htasks, h.tasks y]
    · rw [among_take hvalid, ← h.references y, hreferences]
      cases voiceNamed defaults item with
      | true => simp
      | false => simp [mem_foldl_insertOnce]
    · rw [among_take hvalid, ← or_assoc, ← h.namedVoice, Bool.or_eq_true, hnamed]

theorem Unites.run {done : List BatchSpeechFields} (h : Unites routeModel defaults named done s)
    (hrun : items.foldlM (addItem routeModel defaults) s = .ok s') :
    Unites routeModel defaults named (done ++ items) s' := by
  induction items generalizing done s with
  | nil =>
    cases hrun
    rwa [List.append_nil]
  | cons item items ih =>
    rw [List.foldlM_cons] at hrun
    obtain ⟨s₁, hadd, hrun⟩ := bind_eq_ok.mp hrun
    have hrest := ih (h.add hadd) hrun
    rwa [List.append_assoc] at hrest

theorem exists_run {done : List BatchSpeechFields} (h : Unites routeModel defaults named done s)
    (hselected : ∀ item ∈ items, item.routingFieldsValid = true →
      ∃ x, selectionOf routeModel defaults item = .ok x) :
    ∃ s', items.foldlM (addItem routeModel defaults) s = .ok s' := by
  induction items generalizing done s with
  | nil => exact ⟨s, rfl⟩
  | cons item items ih =>
    have hstep : ∃ s₁, addItem routeModel defaults s item = .ok s₁ := by
      cases hvalid : item.routingFieldsValid with
      | false => exact ⟨s, addItem_skip hvalid⟩
      | true =>
        obtain ⟨x, hx⟩ := hselected item List.mem_cons_self hvalid
        have hmodel : ∃ s₁, addModel routeModel s item.fields.model.join = .ok s₁ := by
          unfold addModel
          split
          · next model hmodel =>
            rw [selectionOf, hmodel] at hx
            exact ⟨_, bind_eq_ok.mpr ⟨x, hx, rfl⟩⟩
          · next hmodel =>
            split
            · exact ⟨s, rfl⟩
            · next hadded =>
              rw [selectionOf, hmodel, Option.none_or, ← h.kept (by simpa using hadded)] at hx
              exact ⟨_, bind_eq_ok.mpr ⟨x, hx, rfl⟩⟩
        obtain ⟨s₁, hs₁⟩ := hmodel
        exact ⟨_, by rw [addItem_take hvalid, hs₁]; rfl⟩
    obtain ⟨s₁, hs₁⟩ := hstep
    obtain ⟨s', hs'⟩ := ih (h.add hs₁) fun other hmem => hselected other (List.mem_cons_of_mem _ hmem)
    exact ⟨s', by rw [List.foldlM_cons, hs₁]; exact hs'⟩

end Router
