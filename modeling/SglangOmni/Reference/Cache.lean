import Mathlib.Algebra.Order.Ring.Nat

/-! The in-memory cache of stage outputs: the least recently used entries make room for new ones. -/

namespace Reference

structure CacheEntry (σ : Type) where
  data : σ
  sizeBytes : ℕ

structure StageOutputCache (κ σ : Type) where
  cache : List (κ × CacheEntry σ) := []
  currentBytes : ℕ := 0
  evictionCount : ℕ := 0

/-- The limits of a cache, its measure of values and the copy that it keeps of them, which may fail. -/
structure CacheOptions (σ ε : Type) where
  maxSize : Option ℕ
  maxBytes : Option ℕ
  sizeFn : σ → ℕ
  detachValue : σ → Except ε σ

namespace StageOutputCache

variable {κ σ ε : Type} [DecidableEq κ] (options : CacheOptions σ ε) (cache : StageOutputCache κ σ)

def find (key : κ) : Option (CacheEntry σ) :=
  (cache.cache.find? fun entry => entry.1 = key).map Prod.snd

def without (key : κ) : StageOutputCache κ σ :=
  { cache with
    cache := cache.cache.filter fun entry => entry.1 ≠ key
    currentBytes := cache.currentBytes - ((cache.find key).map (·.sizeBytes)).getD 0 }

def get (key : κ) : Option σ × StageOutputCache κ σ :=
  match cache.find key with
  | none => (none, cache)
  | some entry =>
    (some entry.data, { cache with
      cache := (cache.cache.filter fun other => other.1 ≠ key) ++ [(key, entry)] })

def popOldest : StageOutputCache κ σ :=
  match cache.cache with
  | [] => cache
  | (_, entry) :: rest =>
    { cache := rest
      currentBytes := cache.currentBytes - entry.sizeBytes
      evictionCount := cache.evictionCount + 1 }

/-- The first loop of `evict_over_budget`, with as many turns as there are entries. -/
def evictOverSize (maxSize : ℕ) : ℕ → StageOutputCache κ σ → StageOutputCache κ σ
  | 0, cache => cache
  | n + 1, cache =>
    if maxSize < cache.cache.length then evictOverSize maxSize n cache.popOldest else cache

def evictOverBytes (maxBytes : ℕ) : ℕ → StageOutputCache κ σ → StageOutputCache κ σ
  | 0, cache => if maxBytes < cache.currentBytes then { cache with currentBytes := 0 } else cache
  | n + 1, cache =>
    if maxBytes < cache.currentBytes then evictOverBytes maxBytes n cache.popOldest else cache

def evictOverBudget : StageOutputCache κ σ :=
  let cache := match options.maxSize with
    | none => cache
    | some maxSize => evictOverSize maxSize cache.cache.length cache
  match options.maxBytes with
  | none => cache
  | some maxBytes => evictOverBytes maxBytes cache.cache.length cache

/-- The cache after `data` is put under a key, and the failure of the copy if there is one. -/
def put (key : κ) (data : σ) : StageOutputCache κ σ × Except ε Unit :=
  let sizeBytes := options.sizeFn data
  let cache := cache.without key
  if options.maxBytes.any (· < sizeBytes) then (cache, .ok ())
  else
    match options.detachValue data with
    | .error e => (cache, .error e)
    | .ok data =>
      let cache := { cache with
        cache := cache.cache ++ [(key, CacheEntry.mk data sizeBytes)]
        currentBytes := cache.currentBytes + sizeBytes }
      (cache.evictOverBudget options, .ok ())

/-! ### What a cache holds -/

def Holds (cache : StageOutputCache κ σ) (key : κ) (data : σ) : Prop :=
  ∃ entry, (key, entry) ∈ cache.cache ∧ entry.data = data

variable {options cache} {key other : κ} {data value : σ}

theorem holds_get (h : (cache.get key).2.Holds other value) : cache.Holds other value := by
  unfold get find at h
  cases hfind : cache.cache.find? fun entry => entry.1 = key with
  | none =>
    rw [hfind] at h
    exact h
  | some found =>
    rw [hfind] at h
    obtain ⟨entry, hmem, hdata⟩ := h
    rcases List.mem_append.mp hmem with hmem | hmem
    · exact ⟨entry, (List.mem_filter.mp hmem).1, hdata⟩
    · have hkey := List.find?_some hfind
      simp only [decide_eq_true_eq] at hkey
      obtain ⟨rfl, rfl⟩ := Prod.mk.inj (List.mem_singleton.mp hmem)
      refine ⟨found.2, ?_, hdata⟩
      rw [← hkey]
      exact List.mem_of_find?_eq_some hfind

theorem holds_without (h : (cache.without key).Holds other value) : cache.Holds other value := by
  obtain ⟨entry, hmem, hdata⟩ := h
  exact ⟨entry, (List.mem_filter.mp hmem).1, hdata⟩

omit [DecidableEq κ] in
theorem holds_popOldest (h : cache.popOldest.Holds other value) : cache.Holds other value := by
  unfold popOldest at h
  split at h
  · exact h
  · next heq =>
    obtain ⟨entry, hmem, hdata⟩ := h
    refine ⟨entry, ?_, hdata⟩
    rw [heq]
    exact List.mem_cons_of_mem _ hmem

omit [DecidableEq κ] in
theorem holds_evictOverSize {maxSize n : ℕ} (h : (evictOverSize maxSize n cache).Holds other value) :
    cache.Holds other value := by
  induction n generalizing cache with
  | zero => exact h
  | succ n ih =>
    rw [evictOverSize] at h
    split at h
    · exact holds_popOldest (ih h)
    · exact h

omit [DecidableEq κ] in
theorem holds_evictOverBytes {maxBytes n : ℕ}
    (h : (evictOverBytes maxBytes n cache).Holds other value) : cache.Holds other value := by
  induction n generalizing cache with
  | zero =>
    rw [evictOverBytes] at h
    split at h <;> exact h
  | succ n ih =>
    rw [evictOverBytes] at h
    split at h
    · exact holds_popOldest (ih h)
    · exact h

omit [DecidableEq κ] in
theorem holds_evictOverBudget (h : (cache.evictOverBudget options).Holds other value) :
    cache.Holds other value := by
  unfold evictOverBudget at h
  simp only at h
  split at h <;> split at h
  · exact h
  · exact holds_evictOverSize h
  · exact holds_evictOverBytes h
  · exact holds_evictOverSize (holds_evictOverBytes h)

theorem holds_put (h : (cache.put options key data).1.Holds other value) :
    cache.Holds other value ∨ other = key ∧ options.detachValue data = .ok value := by
  unfold put at h
  simp only at h
  split at h
  · exact .inl (holds_without h)
  · split at h
    · exact .inl (holds_without h)
    · next copy hcopy =>
      obtain ⟨entry, hmem, hdata⟩ := holds_evictOverBudget h
      rcases List.mem_append.mp hmem with hmem | hmem
      · exact .inl (holds_without ⟨entry, hmem, hdata⟩)
      · obtain ⟨rfl, rfl⟩ := Prod.mk.inj (List.mem_singleton.mp hmem)
        rw [hcopy, ← hdata]
        exact .inr ⟨rfl, rfl⟩

end StageOutputCache

end Reference
