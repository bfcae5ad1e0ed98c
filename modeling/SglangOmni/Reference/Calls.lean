import SglangOmni.Lib.Lists
import SglangOmni.Reference.Service

/-! What the steps of a call do, and what holds of every call: which future it waits for, what it has stored
and how it ends. -/

namespace Reference

open Lib

variable {κ σ α ε : Type} [DecidableEq κ] {cfg : Options κ σ α ε}
  {s s' : ReferenceEncodeService κ σ α ε} {c : ℕ} {call call' : Call κ σ α ε} {key : κ}

/-! ### Steps -/

inductive Advanced (cfg : Options κ σ α ε) (s : ReferenceEncodeService κ σ α ε) (c : ℕ)
    (call : Call κ σ α ε) : ReferenceEncodeService κ σ α ε → Prop where
  | own {call' : Call κ σ α ε} (h : call.own cfg s c = some call') :
      Advanced cfg s c call (s.setCall c call')
  | uncacheable (h : call.stage = .looking none) :
      Advanced cfg s c call (countUncacheable s c call)
  | looked {key : κ} (h : call.stage = .looking (some key)) :
      Advanced cfg s c call (lookUp cfg s c call key)
  | enqueued (h : call.stage = .encoding) (hbatching : cfg.batching = true) :
      Advanced cfg s c call (enqueue s c call)
  | published {key : κ} {stored : σ} {shouldCache : Bool} (hrole : call.role = .leader key)
      (h : call.stage = .publishing stored shouldCache) :
      Advanced cfg s c call (publish cfg s c call key stored shouldCache)
  | failed {e : ε} (h : call.stage = .failing e) : Advanced cfg s c call (fail s c call e)

theorem advance_cases (h : advance cfg s c call = some s') : Advanced cfg s c call s' := by
  unfold advance at h
  split at h
  · next hstage => cases h; exact .uncacheable hstage
  · next hstage => cases h; exact .looked hstage
  · next hstage =>
    split at h
    · next hbatching => cases h; exact .enqueued hstage hbatching
    · obtain ⟨call', hown, rfl⟩ := Option.map_eq_some_iff.mp h
      exact .own hown
  · next hstage =>
    split at h
    · next hrole => cases h; exact .published hrole hstage
    · cases h
  · next hstage => cases h; exact .failed hstage
  · obtain ⟨call', hown, rfl⟩ := Option.map_eq_some_iff.mp h
    exact .own hown

inductive Owned (cfg : Options κ σ α ε) (s : ReferenceEncodeService κ σ α ε) (c : ℕ)
    (call : Call κ σ α ε) : Call κ σ α ε → Prop where
  | named (key : Option κ) (h : call.stage = .normalizing) :
      Owned cfg s c call { call with stage := .looking key }
  | unnamed (e : ε) (h : call.stage = .normalizing) :
      Owned cfg s c call { call with stage := .raised e }
  | encoded (outcome : Except ε α) (h : call.stage = .encoding ∨ ∃ entry, call.stage = .queued entry) :
      Owned cfg s c call (call.encoded outcome)
  | stored {artifact : α} {stored : σ} (h : call.stage = .storing artifact)
      (hstore : cfg.hook.storeArtifact c artifact = .ok stored) :
      Owned cfg s c call { call with stage := .checking stored, stored := some stored }
  | checked {stored : σ} {shouldCache : Bool} (h : call.stage = .checking stored)
      (hcheck : cfg.hook.revalidate c = .ok shouldCache) :
      Owned cfg s c call
        { call with stage := .publishing stored shouldCache, shouldCache := shouldCache }
  | failed (e : ε) (h : (∃ artifact, call.stage = .storing artifact) ∨
      ∃ stored, call.stage = .checking stored) :
      Owned cfg s c call { call with stage := .failing e }
  | completed {stored : σ} (h : call.stage = .completing stored) :
      Owned cfg s c call { call with stage := .loading stored, future := some (.ok stored) }
  | raised {e : ε} (h : call.stage = .raising e) :
      Owned cfg s c call { call with stage := .raised e, future := some (.error e) }
  | followed {key : κ} {leader : ℕ} {stored : σ} (h : call.stage = .waiting)
      (hrole : call.role = .follower key leader)
      (hfuture : futureOf s leader = some (.ok stored)) :
      Owned cfg s c call { call with stage := .loading stored }
  | followedFailure {key : κ} {leader : ℕ} {e : ε} (h : call.stage = .waiting)
      (hrole : call.role = .follower key leader)
      (hfuture : futureOf s leader = some (.error e)) :
      Owned cfg s c call { call with stage := .raised (reraised cfg e) }
  | loaded {stored : σ} {artifact : α} (h : call.stage = .loading stored)
      (hload : cfg.hook.loadArtifact c stored = .ok artifact) :
      Owned cfg s c call { call with stage := .returned artifact }
  | unloaded {stored : σ} {e : ε} (h : call.stage = .loading stored)
      (hload : cfg.hook.loadArtifact c stored = .error e) :
      Owned cfg s c call { call with stage := .raised e }

omit [DecidableEq κ] in
theorem own_cases (h : call.own cfg s c = some call') : Owned cfg s c call call' := by
  unfold Call.own at h
  split at h
  · next hstage =>
    split at h <;> cases h
    · exact .unnamed _ hstage
    · exact .named _ hstage
  · next hstage =>
    split at h <;> cases h
    exact .encoded _ (.inl hstage)
  · next hstage =>
    obtain ⟨outcome, -, rfl⟩ := Option.map_eq_some_iff.mp h
    exact .encoded _ (.inr ⟨_, hstage⟩)
  · next hstage =>
    split at h <;> cases h
    · exact .failed _ (.inl ⟨_, hstage⟩)
    · next hstore => exact .stored hstage hstore
  · next hstage =>
    split at h <;> cases h
    · exact .failed _ (.inr ⟨_, hstage⟩)
    · next hcheck => exact .checked hstage hcheck
  · next hstage => cases h; exact .completed hstage
  · next hstage => cases h; exact .raised hstage
  · next hstage =>
    split at h
    · next hrole =>
      split at h <;> cases h
      · next hfuture => exact .followed hstage hrole hfuture
      · next hfuture => exact .followedFailure hstage hrole hfuture
    · cases h
  · next hstage =>
    split at h <;> cases h
    · next hload => exact .unloaded hstage hload
    · next hload => exact .loaded hstage hload
  · cases h

inductive Looked (cfg : Options κ σ α ε) (s : ReferenceEncodeService κ σ α ε) (c : ℕ)
    (call : Call κ σ α ε) (key : κ) : ReferenceEncodeService κ σ α ε → Prop where
  | hit (stored : σ) : Looked cfg s c call key
      ({ s with cache := (s.cache.get key).2, hits := s.hits + 1 }.setCall c
        { call with role := .hit key, stage := .loading stored })
  | follower {leader : ℕ} (h : s.inflight.get? key = some leader) : Looked cfg s c call key
      ({ s with cache := (s.cache.get key).2, merged := s.merged + 1 }.setCall c
        { call with role := .follower key leader, stage := .waiting })
  | leader (h : s.inflight.get? key = none) : Looked cfg s c call key
      ({ s with
        cache := (s.cache.get key).2
        misses := s.misses + 1
        inflight := s.inflight.set key c }.setCall c
        { call with role := .leader key, stage := .encoding })

variable (cfg s c call key) in
theorem lookUp_cases : Looked cfg s c call key (lookUp cfg s c call key) := by
  unfold lookUp
  simp only
  split
  · exact .hit _
  · split
    · next h => exact .follower h
    · next h => exact .leader h

inductive Published (cfg : Options κ σ α ε) (s : ReferenceEncodeService κ σ α ε) (c : ℕ)
    (call : Call κ σ α ε) (key : κ) (stored : σ) (shouldCache : Bool) :
    ReferenceEncodeService κ σ α ε → Prop where
  | failed {cache : StageOutputCache κ σ} (e : ε)
      (hcache : ∀ other value, cache.Holds other value → s.cache.Holds other value ∨
        other = key ∧ shouldCache = true ∧ cfg.cache.detachValue stored = .ok value) :
      Published cfg s c call key stored shouldCache
        ({ s with cache := cache }.setCall c { call with stage := .failing e })
  | done {cache : StageOutputCache κ σ}
      (hcache : ∀ other value, cache.Holds other value → s.cache.Holds other value ∨
        other = key ∧ shouldCache = true ∧ cfg.cache.detachValue stored = .ok value) :
      Published cfg s c call key stored shouldCache
        ({ s with cache := cache, inflight := s.inflight.erase key }.setCall c
          { call with stage := .completing stored })

variable (cfg s c call key) in
theorem publish_cases (stored : σ) (shouldCache : Bool) :
    Published cfg s c call key stored shouldCache
      (publish cfg s c call key stored shouldCache) := by
  have hcache : ∀ other value,
      (if shouldCache then s.cache.put cfg.cache key stored else (s.cache, .ok ())).1.Holds
        other value → s.cache.Holds other value ∨
        other = key ∧ shouldCache = true ∧ cfg.cache.detachValue stored = .ok value := by
    intro other value hholds
    cases shouldCache with
    | false => exact .inl hholds
    | true =>
      rcases StageOutputCache.holds_put hholds with hold | ⟨hkey, hdetach⟩
      · exact .inl hold
      · exact .inr ⟨hkey, rfl, hdetach⟩
  unfold publish
  generalize (if shouldCache then s.cache.put cfg.cache key stored else (s.cache, .ok ())) = result
    at hcache
  obtain ⟨cache, outcome⟩ := result
  cases outcome with
  | error e => exact .failed e hcache
  | ok u => exact .done hcache

/-! ### Leaders -/

/-- A leader has its entry among those in flight from the lookup until its locked section removes it. -/
def Stage.holdsEntry : Stage κ σ α ε → Bool
  | .encoding | .queued _ | .storing _ | .checking _ | .publishing _ _ | .failing _ => true
  | _ => false

def Call.Leads (call : Call κ σ α ε) (key : κ) : Prop :=
  call.role = .leader key ∧ call.stage.holdsEntry = true

omit [DecidableEq κ] in
theorem Call.encoded_role (outcome : Except ε α) : (call.encoded outcome).role = call.role := by
  unfold encoded
  cases outcome with
  | error e => rfl
  | ok artifact => cases call.role <;> rfl

omit [DecidableEq κ] in
theorem Call.encoded_leads (outcome : Except ε α) (hstage : call.stage.holdsEntry = true) :
    (call.encoded outcome).Leads key ↔ call.Leads key := by
  unfold Leads
  rw [encoded_role]
  apply and_congr_right
  intro hrole
  unfold encoded
  rw [hrole, hstage]
  cases outcome <;> rfl

omit [DecidableEq κ] in
theorem Owned.role_eq (h : Owned cfg s c call call') : call'.role = call.role := by
  cases h with
  | encoded outcome _ => exact Call.encoded_role outcome
  | _ => rfl

omit [DecidableEq κ] in
theorem Owned.leads_iff (h : Owned cfg s c call call') : call'.Leads key ↔ call.Leads key := by
  cases h with
  | encoded outcome h =>
    apply Call.encoded_leads
    rcases h with h | ⟨entry, h⟩ <;> rw [h] <;> rfl
  | failed e h =>
    unfold Call.Leads
    rcases h with ⟨artifact, h⟩ | ⟨stored, h⟩ <;> rw [h] <;> rfl
  | named _ h | unnamed _ h | stored h _ | checked h _ | completed h | raised h | followed h _ _
  | followedFailure h _ _ | loaded h _ | unloaded h _ =>
    unfold Call.Leads
    rw [h]
    rfl

/-! ### What holds of a call -/

def FollowerAt (cfg : Options κ σ α ε) (s : ReferenceEncodeService κ σ α ε) (c leader : ℕ) :
    Stage κ σ α ε → Prop
  | .waiting => True
  | .timedOut => True
  | .loading stored => futureOf s leader = some (.ok stored)
  | .returned artifact => ∃ stored, futureOf s leader = some (.ok stored) ∧
      cfg.hook.loadArtifact c stored = .ok artifact
  | .raised e => (∃ stored, futureOf s leader = some (.ok stored) ∧
      cfg.hook.loadArtifact c stored = .error e) ∨
    ∃ failure, futureOf s leader = some (.error failure) ∧ e = reraised cfg failure
  | _ => False

/-- The call has not asked `revalidate` yet. -/
def Stage.unchecked : Stage κ σ α ε → Bool
  | .normalizing | .looking _ | .encoding | .queued _ | .storing _ | .checking _ => true
  | _ => false

def Stage.ended : Stage κ σ α ε → Bool
  | .loading _ | .returned _ | .raised _ | .timedOut => true
  | _ => false

structure Sound (cfg : Options κ σ α ε) (s : ReferenceEncodeService κ σ α ε) (c : ℕ)
    (call : Call κ σ α ε) : Prop where
  unknown : call.stage = .normalizing ∨ (∃ key, call.stage = .looking key) → call.role = .unknown
  unchecked : call.stage.unchecked = true → call.shouldCache = false
  unended : call.stage.ended = false → call.future = none
  checking : ∀ stored, call.stage = .checking stored → call.stored = some stored
  publishing : ∀ stored shouldCache, call.stage = .publishing stored shouldCache →
    call.stored = some stored ∧ call.shouldCache = shouldCache
  completing : ∀ stored, call.stage = .completing stored → call.stored = some stored
  future_ok : ∀ stored, call.future = some (.ok stored) → call.stored = some stored
  future_error : ∀ e, call.future = some (.error e) → call.stage = .raised e
  stored_of : ∀ stored, call.stored = some stored →
    ∃ artifact, cfg.hook.storeArtifact c artifact = .ok stored
  revalidated : call.shouldCache = true → cfg.hook.revalidate c = .ok true
  follower : ∀ key leader, call.role = .follower key leader →
    (∃ other, s.calls[leader]? = some other ∧ other.role = .leader key) ∧
      FollowerAt cfg s c leader call.stage

section Sound

variable (hs : Sound cfg s c call)
include hs

omit [DecidableEq κ] in
theorem Sound.not_follower (h : ∀ leader, ¬FollowerAt cfg s c leader call.stage) {P : κ → ℕ → Prop} (key : κ)
    (leader : ℕ) (hrole : call.role = .follower key leader) : P key leader :=
  absurd (hs.follower key leader hrole).2 (h leader)

omit [DecidableEq κ] in
theorem Sound.restage (stage : Stage κ σ α ε)
    (hunknown : stage = .normalizing ∨ (∃ key, stage = .looking key) → call.role = .unknown)
    (hunchecked : stage.unchecked = true → call.shouldCache = false)
    (hchecking : ∀ stored, stage = .checking stored → call.stored = some stored)
    (hpublishing : ∀ stored shouldCache, stage = .publishing stored shouldCache →
      call.stored = some stored ∧ call.shouldCache = shouldCache)
    (hcompleting : ∀ stored, stage = .completing stored → call.stored = some stored)
    (hfuture : call.future = none ∨
      stage.ended = true ∧ ∀ e, call.future = some (.error e) → stage = .raised e)
    (hfollower : ∀ key leader, call.role = .follower key leader → FollowerAt cfg s c leader stage) :
    Sound cfg s c { call with stage := stage } where
  unknown := hunknown
  unchecked := hunchecked
  unended hended := by
    rcases hfuture with hnone | ⟨hyes, -⟩
    · exact hnone
    · exact absurd hyes (by simp [show stage.ended = false from hended])
  checking := hchecking
  publishing := hpublishing
  completing := hcompleting
  future_ok := hs.future_ok
  future_error e he := by
    rcases hfuture with hnone | ⟨-, hraised⟩
    · exact absurd (show call.future = some (.error e) from he) (by simp [hnone])
    · exact hraised e he
  stored_of := hs.stored_of
  revalidated := hs.revalidated
  follower key leader hrole := ⟨(hs.follower key leader hrole).1, hfollower key leader hrole⟩

omit [DecidableEq κ] in
theorem Sound.restage_failing (e : ε) (hunended : call.stage.ended = false)
    (hnot : ∀ leader, ¬FollowerAt cfg s c leader call.stage) :
    Sound cfg s c { call with stage := .failing e } :=
  hs.restage _ (by simp) nofun nofun nofun nofun (.inl (hs.unended hunended))
    (hs.not_follower hnot)

omit [DecidableEq κ] in
theorem Sound.encoded (outcome : Except ε α)
    (h : call.stage = .encoding ∨ ∃ entry, call.stage = .queued entry) :
    Sound cfg s c (call.encoded outcome) := by
  have hunended : call.stage.ended = false := by
    rcases h with h | ⟨entry, h⟩ <;> rw [h] <;> rfl
  have hunchecked : call.stage.unchecked = true := by
    rcases h with h | ⟨entry, h⟩ <;> rw [h] <;> rfl
  have hnot : ∀ leader, ¬FollowerAt cfg s c leader call.stage := by
    rcases h with h | ⟨entry, h⟩ <;> rw [h] <;> exact fun _ => id
  unfold Call.encoded
  cases outcome with
  | error e => exact hs.restage_failing e hunended hnot
  | ok artifact =>
    simp only
    split
    · exact hs.restage _ (by simp) (fun _ => hs.unchecked hunchecked) nofun nofun nofun
        (.inl (hs.unended hunended))
        (hs.not_follower hnot)
    · exact hs.restage _ (by simp) nofun nofun nofun nofun (.inl (hs.unended hunended))
        (hs.not_follower hnot)

omit [DecidableEq κ] in
theorem Owned.sound (h : Owned cfg s c call call') : Sound cfg s c call' := by
  cases h with
  | named key h =>
    have hnot : ∀ leader, ¬FollowerAt cfg s c leader call.stage := by rw [h]; exact fun _ => id
    exact hs.restage _ (fun _ => hs.unknown (.inl h)) (fun _ => hs.unchecked (by rw [h]; rfl)) nofun
      nofun nofun (.inl (hs.unended (by rw [h]; rfl)))
      (hs.not_follower hnot)
  | unnamed e h =>
    have hnot : ∀ leader, ¬FollowerAt cfg s c leader call.stage := by rw [h]; exact fun _ => id
    exact hs.restage _ (by simp) nofun nofun nofun nofun (.inl (hs.unended (by rw [h]; rfl)))
      (hs.not_follower hnot)
  | encoded outcome h => exact hs.encoded outcome h
  | stored h hstore =>
    have hnot : ∀ leader, ¬FollowerAt cfg s c leader call.stage := by rw [h]; exact fun _ => id
    have hnone := hs.unended (by rw [h]; rfl)
    exact
      { unknown := by simp
        unchecked := fun _ => hs.unchecked (by rw [h]; rfl)
        unended := fun _ => hnone
        checking := by
          rintro _ ⟨⟩
          rfl
        publishing := nofun
        completing := nofun
        future_ok := fun value hvalue => absurd (show call.future = _ from hvalue) (by simp [hnone])
        future_error := fun e he => absurd (show call.future = _ from he) (by simp [hnone])
        stored_of := by
          rintro _ ⟨⟩
          exact ⟨_, hstore⟩
        revalidated := hs.revalidated
        follower := hs.not_follower hnot }
  | checked h hcheck =>
    have hnot : ∀ leader, ¬FollowerAt cfg s c leader call.stage := by rw [h]; exact fun _ => id
    have hnone := hs.unended (by rw [h]; rfl)
    exact
      { unknown := by simp
        unchecked := nofun
        unended := fun _ => hnone
        checking := nofun
        publishing := by
          rintro _ _ ⟨⟩
          exact ⟨hs.checking _ h, rfl⟩
        completing := nofun
        future_ok := hs.future_ok
        future_error := fun e he => absurd (show call.future = _ from he) (by simp [hnone])
        stored_of := hs.stored_of
        revalidated := by
          rintro ⟨⟩
          exact hcheck
        follower := hs.not_follower hnot }
  | failed e h =>
    have hunended : call.stage.ended = false := by
      rcases h with ⟨_, h⟩ | ⟨_, h⟩ <;> rw [h] <;> rfl
    have hnot : ∀ leader, ¬FollowerAt cfg s c leader call.stage := by
      rcases h with ⟨_, h⟩ | ⟨_, h⟩ <;> rw [h] <;> exact fun _ => id
    exact hs.restage_failing e hunended hnot
  | completed h =>
    have hnot : ∀ leader, ¬FollowerAt cfg s c leader call.stage := by rw [h]; exact fun _ => id
    exact
      { unknown := by simp
        unchecked := nofun
        unended := nofun
        checking := nofun
        publishing := nofun
        completing := nofun
        future_ok := by
          rintro _ ⟨⟩
          exact hs.completing _ h
        future_error := nofun
        stored_of := hs.stored_of
        revalidated := hs.revalidated
        follower := hs.not_follower hnot }
  | raised h =>
    have hnot : ∀ leader, ¬FollowerAt cfg s c leader call.stage := by rw [h]; exact fun _ => id
    exact
      { unknown := by simp
        unchecked := nofun
        unended := nofun
        checking := nofun
        publishing := nofun
        completing := nofun
        future_ok := nofun
        future_error := by
          rintro _ ⟨⟩
          rfl
        stored_of := hs.stored_of
        revalidated := hs.revalidated
        follower := hs.not_follower hnot }
  | followed h hrole hfuture =>
    refine hs.restage _ (by simp) nofun nofun nofun nofun (.inl (hs.unended (by rw [h]; rfl)))
      fun key leader hrole' => ?_
    obtain ⟨rfl, rfl⟩ := Role.follower.inj (hrole.symm.trans hrole')
    exact hfuture
  | followedFailure h hrole hfuture =>
    refine hs.restage _ (by simp) nofun nofun nofun nofun (.inl (hs.unended (by rw [h]; rfl)))
      fun key leader hrole' => ?_
    obtain ⟨rfl, rfl⟩ := Role.follower.inj (hrole.symm.trans hrole')
    exact .inr ⟨_, hfuture, rfl⟩
  | loaded h hload =>
    refine hs.restage _ (by simp) nofun nofun nofun nofun (.inr ⟨rfl, fun e he => ?_⟩)
      fun key leader hrole => ?_
    · have hraised := hs.future_error e he
      rw [h] at hraised
      cases hraised
    · have hat := (hs.follower key leader hrole).2
      rw [h] at hat
      exact ⟨_, hat, hload⟩
  | unloaded h hload =>
    refine hs.restage _ (by simp) nofun nofun nofun nofun (.inr ⟨rfl, fun e he => ?_⟩)
      fun key leader hrole => ?_
    · have hraised := hs.future_error e he
      rw [h] at hraised
      cases hraised
    · have hat := (hs.follower key leader hrole).2
      rw [h] at hat
      exact .inl ⟨_, hat, hload⟩

end Sound

end Reference
