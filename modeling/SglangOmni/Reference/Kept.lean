import SglangOmni.Reference.Calls

/-! What every step of the service keeps: each key in flight has one leader, the cache holds what leaders have
stored, and every call that got past the lookup is counted once. -/

namespace Reference

open Lib

variable {κ σ α ε : Type} [DecidableEq κ] {cfg : Options κ σ α ε}
  {s s' : ReferenceEncodeService κ σ α ε} {c : ℕ} {call call' : Call κ σ α ε} {key : κ}

/-! ### Calls that go on -/

structure Becomes (call call' : Call κ σ α ε) : Prop where
  role : call.role ≠ .unknown → call'.role = call.role
  future : ∀ outcome, call.future = some outcome → call'.future = some outcome
  cached : call.shouldCache = true → call'.shouldCache = true ∧ call'.stored = call.stored

def Grows (s s' : ReferenceEncodeService κ σ α ε) : Prop :=
  ∀ (c : ℕ) (call : Call κ σ α ε), s.calls[c]? = some call →
    ∃ call', s'.calls[c]? = some call' ∧ Becomes call call'

omit [DecidableEq κ] in
theorem Becomes.refl (call : Call κ σ α ε) : Becomes call call :=
  ⟨fun _ => rfl, fun _ h => h, fun h => ⟨h, rfl⟩⟩

omit [DecidableEq κ] in
theorem Becomes.restage (call : Call κ σ α ε) (stage : Stage κ σ α ε) :
    Becomes call { call with stage := stage } :=
  ⟨fun _ => rfl, fun _ h => h, fun h => ⟨h, rfl⟩⟩

omit [DecidableEq κ] in
theorem Owned.becomes (h : Owned cfg s c call call') (hs : Sound cfg s c call) :
    Becomes call call' := by
  refine ⟨fun _ => h.role_eq, fun outcome houtcome => ?_, fun hcache => ?_⟩
  · cases h with
    | completed h | raised h =>
      have hnone := hs.unended (by rw [h]; rfl)
      rw [hnone] at houtcome
      cases houtcome
    | encoded result h =>
      unfold Call.encoded
      cases result with
      | error e => exact houtcome
      | ok artifact => cases call.role <;> exact houtcome
    | _ => exact houtcome
  · cases h with
    | stored h _ | checked h _ =>
      have hno := hs.unchecked (by rw [h]; rfl)
      rw [hno] at hcache
      cases hcache
    | encoded result h =>
      have hno := hs.unchecked (by rcases h with h | ⟨_, h⟩ <;> rw [h] <;> rfl)
      rw [hno] at hcache
      cases hcache
    | _ => exact ⟨hcache, rfl⟩

omit [DecidableEq κ] in
theorem grows_set (hcall : s.calls[c]? = some call) (hbecomes : Becomes call call')
    (hcalls : s'.calls = s.calls.set c call') : Grows s s' := by
  intro other before hbefore
  rw [hcalls, getElem?_set_of_some hcall]
  split
  · next heq =>
    subst heq
    cases hcall.symm.trans hbefore
    exact ⟨call', rfl, hbecomes⟩
  · exact ⟨before, hbefore, .refl before⟩

omit [DecidableEq κ] in
theorem grows_of_calls_eq (hcalls : s'.calls = s.calls) : Grows s s' :=
  fun _ call h => ⟨call, hcalls ▸ h, .refl call⟩

omit [DecidableEq κ] in
theorem Grows.futureOf (hg : Grows s s') {leader : ℕ} {outcome : Except ε σ}
    (h : futureOf s leader = some outcome) : futureOf s' leader = some outcome := by
  obtain ⟨call, hcall, hfuture⟩ := Option.bind_eq_some_iff.mp h
  obtain ⟨call', hcall', hbecomes⟩ := hg leader call hcall
  exact Option.bind_eq_some_iff.mpr ⟨call', hcall', hbecomes.future outcome hfuture⟩

omit [DecidableEq κ] in
theorem FollowerAt.mono (hg : Grows s s') {leader : ℕ} {stage : Stage κ σ α ε}
    (h : FollowerAt cfg s c leader stage) : FollowerAt cfg s' c leader stage := by
  cases stage with
  | waiting | timedOut => trivial
  | loading stored => exact hg.futureOf h
  | returned artifact =>
    obtain ⟨stored, hfuture, hload⟩ := h
    exact ⟨stored, hg.futureOf hfuture, hload⟩
  | raised e =>
    rcases h with ⟨stored, hfuture, hload⟩ | ⟨failure, hfuture, he⟩
    · exact .inl ⟨stored, hg.futureOf hfuture, hload⟩
    · exact .inr ⟨failure, hg.futureOf hfuture, he⟩
  | normalizing | looking | encoding | queued | storing | checking | publishing | completing | failing
  | raising => exact h

omit [DecidableEq κ] in
theorem Sound.mono (hg : Grows s s') (hs : Sound cfg s c call) : Sound cfg s' c call :=
  { hs with
    follower := fun key leader hrole => by
      obtain ⟨⟨other, hother, hleads⟩, hat⟩ := hs.follower key leader hrole
      obtain ⟨other', hother', hbecomes⟩ := hg leader other hother
      have hknown : other.role ≠ .unknown := by
        rw [hleads]
        exact nofun
      exact ⟨⟨other', hother', (hbecomes.role hknown).trans hleads⟩, hat.mono hg⟩ }

/-! ### What is kept -/

/-- A call got past the lookup, or past the count of those without a key. -/
def Call.past (call : Call κ σ α ε) : Bool :=
  match call.role with
  | .unknown => false
  | _ => true

def Stored (cfg : Options κ σ α ε) (s : ReferenceEncodeService κ σ α ε) (key : κ) (value : σ) : Prop :=
  ∃ (c : ℕ) (call : Call κ σ α ε) (stored : σ), s.calls[c]? = some call ∧
    call.role = .leader key ∧ call.stored = some stored ∧ call.shouldCache = true ∧
    cfg.cache.detachValue stored = .ok value

def LeadsAll (inflight : Dict κ ℕ) (calls : List (Call κ σ α ε)) : Prop :=
  ∀ (key : κ) (c : ℕ), inflight.get? key = some c ↔
    ∃ call, calls[c]? = some call ∧ call.Leads key

structure Kept (cfg : Options κ σ α ε) (s : ReferenceEncodeService κ σ α ε) : Prop where
  leads : LeadsAll s.inflight s.calls
  sound : ∀ (c : ℕ) (call : Call κ σ α ε), s.calls[c]? = some call → Sound cfg s c call
  cached : ∀ key value, s.cache.Holds key value → Stored cfg s key value
  counted : s.hits + s.merged + s.misses + s.uncacheable = s.calls.countP Call.past

omit [DecidableEq κ] in
theorem Stored.mono (hg : Grows s s') {value : σ} (h : Stored cfg s key value) :
    Stored cfg s' key value := by
  obtain ⟨c, call, stored, hcall, hrole, hstored, hcache, hdetach⟩ := h
  obtain ⟨call', hcall', hbecomes⟩ := hg c call hcall
  obtain ⟨hcache', hstored'⟩ := hbecomes.cached hcache
  have hknown : call.role ≠ .unknown := by
    rw [hrole]
    exact nofun
  exact ⟨c, call', stored, hcall', (hbecomes.role hknown).trans hrole, hstored'.trans hstored, hcache',
    hdetach⟩

omit [DecidableEq κ] in
theorem sound_set (hsound : ∀ (c : ℕ) (call : Call κ σ α ε), s.calls[c]? = some call → Sound cfg s c call)
    (hcall : s.calls[c]? = some call) (hbecomes : Becomes call call') (hown : Sound cfg s c call')
    (hcalls : s'.calls = s.calls.set c call') :
    ∀ (c : ℕ) (call : Call κ σ α ε), s'.calls[c]? = some call → Sound cfg s' c call := by
  have hg := grows_set hcall hbecomes hcalls
  intro other after hafter
  rw [hcalls] at hafter
  rcases of_getElem?_set hcall hafter with ⟨rfl, rfl⟩ | ⟨-, hafter⟩
  · exact hown.mono hg
  · exact (hsound other after hafter).mono hg

omit [DecidableEq κ] in
variable (call') in
theorem countP_set_same (hcall : s.calls[c]? = some call) (hpast : call'.past = call.past) :
    (s.calls.set c call').countP Call.past = s.calls.countP Call.past := by
  obtain ⟨hlt, hget⟩ := List.getElem?_eq_some_iff.mp hcall
  have hpos : call.past = true → 0 < s.calls.countP Call.past := fun hyes =>
    List.countP_pos_iff.mpr ⟨call, List.mem_of_getElem? hcall, hyes⟩
  rw [List.countP_set hlt, hget, hpast]
  split
  · next hyes =>
    have := hpos hyes
    omega
  · omega

omit [DecidableEq κ] in
theorem countP_set_past (hcall : s.calls[c]? = some call) (hbefore : call.past = false)
    (hafter : call'.past = true) :
    (s.calls.set c call').countP Call.past = s.calls.countP Call.past + 1 := by
  obtain ⟨hlt, hget⟩ := List.getElem?_eq_some_iff.mp hcall
  rw [List.countP_set hlt, hget, hbefore, hafter]
  simp

section Leads

variable {inflight : Dict κ ℕ}

theorem LeadsAll.same (h : LeadsAll inflight s.calls) (hcall : s.calls[c]? = some call)
    (hleads : ∀ key, call'.Leads key ↔ call.Leads key) : LeadsAll inflight (s.calls.set c call') := by
  intro key other
  rw [h key other]
  constructor
  · rintro ⟨before, hbefore, hleader⟩
    rw [getElem?_set_of_some hcall]
    split
    · next heq =>
      subst heq
      cases hcall.symm.trans hbefore
      exact ⟨call', rfl, (hleads key).mpr hleader⟩
    · exact ⟨before, hbefore, hleader⟩
  · rintro ⟨after, hafter, hleader⟩
    rcases of_getElem?_set hcall hafter with ⟨rfl, rfl⟩ | ⟨-, hafter⟩
    · exact ⟨call, hcall, (hleads key).mp hleader⟩
    · exact ⟨after, hafter, hleader⟩

theorem LeadsAll.take (h : LeadsAll inflight s.calls) (hcall : s.calls[c]? = some call)
    (hnone : inflight.get? key = none) (hbefore : ∀ key, ¬call.Leads key)
    (hafter : ∀ other, call'.Leads other ↔ other = key) :
    LeadsAll (inflight.set key c) (s.calls.set c call') := by
  intro other d
  rw [Dict.get?_set]
  constructor
  · intro hget
    split at hget
    · next heq =>
      cases hget
      rw [getElem?_set_of_some hcall, if_pos rfl]
      exact ⟨call', rfl, (hafter other).mpr heq⟩
    · obtain ⟨before, hd, hleader⟩ := (h other d).mp hget
      rw [getElem?_set_of_some hcall, if_neg]
      · exact ⟨before, hd, hleader⟩
      · rintro rfl
        cases hcall.symm.trans hd
        exact hbefore other hleader
  · rintro ⟨after, hd, hleader⟩
    rcases of_getElem?_set hcall hd with ⟨rfl, rfl⟩ | ⟨hne, hd⟩
    · rw [if_pos ((hafter other).mp hleader)]
    · have hold := (h other d).mpr ⟨after, hd, hleader⟩
      rw [if_neg]
      · exact hold
      · rintro rfl
        rw [hnone] at hold
        cases hold

theorem LeadsAll.release (h : LeadsAll inflight s.calls) (hcall : s.calls[c]? = some call)
    (hbefore : call.Leads key) (hafter : ∀ other, ¬call'.Leads other) :
    LeadsAll (inflight.erase key) (s.calls.set c call') := by
  have hhere := (h key c).mpr ⟨call, hcall, hbefore⟩
  intro other d
  rw [Dict.get?_erase]
  constructor
  · intro hget
    split at hget
    · cases hget
    · next hne =>
      obtain ⟨before, hd, hleader⟩ := (h other d).mp hget
      rw [getElem?_set_of_some hcall, if_neg]
      · exact ⟨before, hd, hleader⟩
      · rintro rfl
        cases hcall.symm.trans hd
        have hkey := hbefore.1.symm.trans hleader.1
        cases hkey
        exact hne rfl
  · rintro ⟨after, hd, hleader⟩
    rcases of_getElem?_set hcall hd with ⟨rfl, rfl⟩ | ⟨hne, hd⟩
    · exact absurd hleader (hafter other)
    · have hold := (h other d).mpr ⟨after, hd, hleader⟩
      rw [if_neg]
      · exact hold
      · rintro rfl
        cases hhere.symm.trans hold
        exact hne rfl

end Leads

/-! ### Steps -/

namespace Kept

variable (h : Kept cfg s) (hcall : s.calls[c]? = some call)
include h

variable (call') in
theorem next (hcall : s.calls[c]? = some call) (hbecomes : Becomes call call')
    (hown : Sound cfg s c call') (hcalls : s'.calls = s.calls.set c call')
    (hleads : LeadsAll s'.inflight (s.calls.set c call'))
    (hcached : ∀ key value, s'.cache.Holds key value →
      s.cache.Holds key value ∨ Stored cfg s key value)
    (hcounted : s'.hits + s'.merged + s'.misses + s'.uncacheable =
      (s.calls.set c call').countP Call.past) : Kept cfg s' where
  leads := by
    rw [hcalls]
    exact hleads
  sound := sound_set h.sound hcall hbecomes hown hcalls
  cached key value hholds := by
    rcases hcached key value hholds with hold | hstored
    · exact (h.cached key value hold).mono (grows_set hcall hbecomes hcalls)
    · exact hstored.mono (grows_set hcall hbecomes hcalls)
  counted := by
    rw [hcalls]
    exact hcounted

theorem apart (hcalls : s'.calls = s.calls) (hinflight : s'.inflight = s.inflight)
    (hcache : s'.cache = s.cache)
    (hcounts : s'.hits + s'.merged + s'.misses + s'.uncacheable =
      s.hits + s.merged + s.misses + s.uncacheable) : Kept cfg s' where
  leads := by
    rw [hcalls, hinflight]
    exact h.leads
  sound d other hd := (h.sound d other (hcalls ▸ hd)).mono (grows_of_calls_eq hcalls)
  cached key value hholds := (h.cached key value (hcache ▸ hholds)).mono (grows_of_calls_eq hcalls)
  counted := by
    rw [hcalls, hcounts]
    exact h.counted

theorem enter : Kept cfg { s with calls := s.calls ++ [{}] } := by
  have hg : Grows s { s with calls := s.calls ++ [{}] } := fun d other hd =>
    ⟨other, getElem?_concat_of_some hd _, .refl other⟩
  refine ⟨?_, ?_, fun key value hholds => (h.cached key value hholds).mono hg, ?_⟩
  · intro key d
    rw [h.leads key d]
    constructor
    · rintro ⟨other, hd, hleads⟩
      exact ⟨other, getElem?_concat_of_some hd _, hleads⟩
    · rintro ⟨other, hd, hleads⟩
      rcases of_getElem?_concat hd with hd | ⟨-, rfl⟩
      · exact ⟨other, hd, hleads⟩
      · exact absurd hleads.1 nofun
  · intro d other hd
    rcases of_getElem?_concat hd with hd | ⟨-, rfl⟩
    · exact (h.sound d other hd).mono hg
    · exact
        { unknown := fun _ => rfl
          unchecked := fun _ => rfl
          unended := fun _ => rfl
          checking := nofun
          publishing := nofun
          completing := nofun
          future_ok := nofun
          future_error := nofun
          stored_of := nofun
          revalidated := nofun
          follower := nofun }
  · simp only [List.countP_append]
    exact h.counted

include hcall

theorem own (hown : call.own cfg s c = some call') : Kept cfg (s.setCall c call') := by
  have hs := h.sound c call hcall
  have howned := own_cases hown
  refine h.next call' hcall (howned.becomes hs) (howned.sound hs) rfl
    (h.leads.same hcall fun key => howned.leads_iff) (fun _ _ hholds => .inl hholds) ?_
  rw [countP_set_same call' hcall (by unfold Call.past; rw [howned.role_eq])]
  exact h.counted

theorem leads_none (hbefore : call.stage.holdsEntry = false) (hafter : ∀ key, ¬call'.Leads key) :
    LeadsAll s.inflight (s.calls.set c call') :=
  h.leads.same hcall fun key => iff_of_false (hafter key) fun hleads => by
    rw [hleads.2] at hbefore
    cases hbefore

end Kept

omit [DecidableEq κ] in
theorem Sound.classify (hs : Sound cfg s c call) {looked : Option κ}
    (hstage : call.stage = .looking looked) (role : Role κ) (stage : Stage κ σ α ε)
    (hunknown : ¬(stage = .normalizing ∨ ∃ key, stage = .looking key))
    (hchecking : ∀ stored, stage ≠ .checking stored)
    (hpublishing : ∀ stored shouldCache, stage ≠ .publishing stored shouldCache)
    (hcompleting : ∀ stored, stage ≠ .completing stored)
    (hfollower : ∀ key leader, role = .follower key leader →
      (∃ other, s.calls[leader]? = some other ∧ other.role = .leader key) ∧
        FollowerAt cfg s c leader stage) :
    Sound cfg s c { call with role := role, stage := stage } ∧
      Becomes call { call with role := role, stage := stage } := by
  have hrole := hs.unknown (.inr ⟨_, hstage⟩)
  have hnone := hs.unended (by rw [hstage]; rfl)
  have hno := hs.unchecked (by rw [hstage]; rfl)
  refine ⟨?_, fun hknown => absurd hrole hknown, fun _ ho => ho, fun hc => ⟨hc, rfl⟩⟩
  exact
    { hs with
      unknown := fun hu => absurd hu hunknown
      unchecked := fun _ => hno
      unended := fun _ => hnone
      checking := fun stored hc => absurd hc (hchecking stored)
      publishing := fun stored shouldCache hp => absurd hp (hpublishing stored shouldCache)
      completing := fun stored hc => absurd hc (hcompleting stored)
      future_error := fun e he => absurd (show call.future = _ from he) (by simp [hnone])
      follower := hfollower }

namespace Kept

variable (h : Kept cfg s) (hcall : s.calls[c]? = some call)
include h hcall

theorem past_eq {looked : Option κ} (hstage : call.stage = .looking looked) : call.past = false := by
  unfold Call.past
  rw [(h.sound c call hcall).unknown (.inr ⟨_, hstage⟩)]

theorem uncacheable (hstage : call.stage = .looking none) : Kept cfg (countUncacheable s c call) := by
  obtain ⟨hsound, hbecomes⟩ := (h.sound c call hcall).classify hstage .uncacheable .encoding (by simp)
    nofun nofun nofun nofun
  refine h.next _ hcall hbecomes hsound rfl
    (h.leads_none hcall (by rw [hstage]; rfl) fun key hleads => nomatch hleads.1)
    (fun _ _ hholds => .inl hholds) ?_
  rw [countP_set_past hcall (h.past_eq hcall hstage) rfl, ← h.counted]
  show s.hits + s.merged + s.misses + (s.uncacheable + 1) = _
  omega

theorem lookUp (hstage : call.stage = .looking (some key)) :
    Kept cfg (lookUp cfg s c call key) := by
  have hs := h.sound c call hcall
  have hcount {role : Role κ} {stage : Stage κ σ α ε}
      (hpast : ({ call with role := role, stage := stage } : Call κ σ α ε).past = true) :
      (s.calls.set c { call with role := role, stage := stage }).countP Call.past =
        s.hits + s.merged + s.misses + s.uncacheable + 1 := by
    rw [countP_set_past hcall (h.past_eq hcall hstage) hpast, ← h.counted]
  have hidle : call.stage.holdsEntry = false := by
    rw [hstage]
    rfl
  have hlooked := lookUp_cases cfg s c call key
  generalize Reference.lookUp cfg s c call key = after at hlooked ⊢
  cases hlooked with
  | hit stored =>
    obtain ⟨hsound, hbecomes⟩ := hs.classify hstage (.hit key) (.loading stored) (by simp) nofun nofun
      nofun nofun
    refine h.next _ hcall hbecomes hsound rfl
      (h.leads_none hcall hidle fun key hleads => nomatch hleads.1)
      (fun _ _ hholds => .inl (StageOutputCache.holds_get hholds)) ?_
    rw [hcount rfl]
    show s.hits + 1 + s.merged + s.misses + s.uncacheable = _
    omega
  | follower hleader =>
    obtain ⟨other, hother, hleads⟩ := (h.leads _ _).mp hleader
    obtain ⟨hsound, hbecomes⟩ := hs.classify hstage (.follower key _) .waiting (by simp) nofun nofun
      nofun (by
        rintro _ _ ⟨⟩
        exact ⟨⟨other, hother, hleads.1⟩, trivial⟩)
    refine h.next _ hcall hbecomes hsound rfl
      (h.leads_none hcall hidle fun key hleads => nomatch hleads.1)
      (fun _ _ hholds => .inl (StageOutputCache.holds_get hholds)) ?_
    rw [hcount rfl]
    show s.hits + (s.merged + 1) + s.misses + s.uncacheable = _
    omega
  | leader hnone =>
    obtain ⟨hsound, hbecomes⟩ := hs.classify hstage (.leader key) .encoding (by simp) nofun nofun nofun
      nofun
    refine h.next _ hcall hbecomes hsound rfl ?_
      (fun _ _ hholds => .inl (StageOutputCache.holds_get hholds)) ?_
    · refine h.leads.take hcall hnone (fun other hleads => ?_) fun other => ⟨?_, ?_⟩
      · rw [hleads.2] at hidle
        cases hidle
      · rintro ⟨⟨⟩, -⟩
        rfl
      · rintro rfl
        exact ⟨rfl, rfl⟩
    · rw [hcount rfl]
      show s.hits + s.merged + (s.misses + 1) + s.uncacheable = _
      omega

theorem restage {stage : Stage κ σ α ε} (hsound : Sound cfg s c { call with stage := stage })
    (hholds : stage.holdsEntry = call.stage.holdsEntry)
    (hcalls : s'.calls = s.calls.set c { call with stage := stage })
    (hinflight : s'.inflight = s.inflight)
    (hcached : ∀ key value, s'.cache.Holds key value →
      s.cache.Holds key value ∨ Stored cfg s key value)
    (hcounts : s'.hits + s'.merged + s'.misses + s'.uncacheable =
      s.hits + s.merged + s.misses + s.uncacheable) : Kept cfg s' := by
  refine h.next _ hcall (.restage call stage) hsound hcalls ?_ hcached ?_
  · rw [hinflight]
    refine h.leads.same hcall fun key => ?_
    show call.role = .leader key ∧ stage.holdsEntry = true ↔ _
    rw [hholds]
    rfl
  · rw [countP_set_same { call with stage := stage } hcall rfl, hcounts]
    exact h.counted

theorem enqueue (hstage : call.stage = .encoding) : Kept cfg (enqueue s c call) := by
  have hs := h.sound c call hcall
  have hnot : ∀ leader, ¬FollowerAt cfg s c leader call.stage := by
    rw [hstage]
    exact fun _ => id
  have hsound := hs.restage (.queued s.entries) (by simp)
    (fun _ => hs.unchecked (by rw [hstage]; rfl)) nofun nofun nofun
    (.inl (hs.unended (by rw [hstage]; rfl)))
    (hs.not_follower hnot)
  exact h.restage hcall hsound (by rw [hstage]; rfl) rfl rfl (fun _ _ hholds => .inl hholds) rfl

theorem publish {stored : σ} {shouldCache : Bool} (hrole : call.role = .leader key)
    (hstage : call.stage = .publishing stored shouldCache) :
    Kept cfg (publish cfg s c call key stored shouldCache) := by
  have hs := h.sound c call hcall
  obtain ⟨hstored, hcache⟩ := hs.publishing _ _ hstage
  have hnone := hs.unended (by rw [hstage]; rfl)
  have hnot : ∀ leader, ¬FollowerAt cfg s c leader call.stage := by
    rw [hstage]
    exact fun _ => id
  have hnew {cache : StageOutputCache κ σ}
      (hholds : ∀ other value, cache.Holds other value → s.cache.Holds other value ∨
        other = key ∧ shouldCache = true ∧ cfg.cache.detachValue stored = .ok value) :
      ∀ other value, cache.Holds other value →
        s.cache.Holds other value ∨ Stored cfg s other value := by
    intro other value hvalue
    rcases hholds other value hvalue with hold | ⟨rfl, hyes, hdetach⟩
    · exact .inl hold
    · exact .inr ⟨c, call, stored, hcall, hrole, hstored, hcache.trans hyes, hdetach⟩
  have hpublished := publish_cases cfg s c call key stored shouldCache
  generalize Reference.publish cfg s c call key stored shouldCache = after at hpublished ⊢
  cases hpublished with
  | failed e hholds =>
    exact h.restage hcall (hs.restage_failing e (by rw [hstage]; rfl) hnot) (by rw [hstage]; rfl) rfl
      rfl (hnew hholds) rfl
  | done hholds =>
    have hsound := hs.restage (.completing stored) (by simp) nofun nofun nofun
      (by rintro _ ⟨⟩; exact hstored) (.inl hnone)
      (hs.not_follower hnot)
    refine h.next _ hcall (.restage call _) hsound rfl ?_ (hnew hholds) ?_
    · exact h.leads.release hcall ⟨hrole, by rw [hstage]; rfl⟩ fun _ hleads => nomatch hleads.2
    · rw [countP_set_same { call with stage := .completing stored } hcall rfl]
      exact h.counted

theorem fail {e : ε} (hstage : call.stage = .failing e) : Kept cfg (fail s c call e) := by
  have hs := h.sound c call hcall
  have hnone := hs.unended (by rw [hstage]; rfl)
  have hnot : ∀ leader, ¬FollowerAt cfg s c leader call.stage := by
    rw [hstage]
    exact fun _ => id
  unfold Reference.fail
  simp only
  split
  · next hrole =>
    have hsound := hs.restage (.raising e) (by simp) nofun nofun nofun nofun (.inl hnone)
      (hs.not_follower hnot)
    refine h.next _ hcall (.restage call _) hsound rfl ?_ (fun _ _ hholds => .inl hholds) ?_
    · exact h.leads.release hcall ⟨hrole, by rw [hstage]; rfl⟩ fun _ hleads => nomatch hleads.2
    · rw [countP_set_same { call with stage := .raising e } hcall rfl]
      exact h.counted
  · next hrole =>
    have hsound := hs.restage (.raised e) (by simp) nofun nofun nofun nofun (.inl hnone)
      (hs.not_follower hnot)
    refine h.next _ hcall (.restage call _) hsound rfl ?_ (fun _ _ hholds => .inl hholds) ?_
    · refine h.leads.same hcall fun key => ?_
      exact iff_of_false (fun hleads => nomatch hleads.2) fun hleads => hrole key hleads.1
    · rw [countP_set_same { call with stage := .raised e } hcall rfl]
      exact h.counted

theorem advance (hadvance : advance cfg s c call = some s') : Kept cfg s' := by
  cases advance_cases hadvance with
  | own hown => exact h.own hcall hown
  | uncacheable hstage => exact h.uncacheable hcall hstage
  | looked hstage => exact h.lookUp hcall hstage
  | enqueued hstage _ => exact h.enqueue hcall hstage
  | published hrole hstage => exact h.publish hcall hrole hstage
  | failed hstage => exact h.fail hcall hstage

theorem timeOut (htimeOut : call.timeOut cfg s = some call') : Kept cfg (s.setCall c call') := by
  have hs := h.sound c call hcall
  unfold Call.timeOut at htimeOut
  split at htimeOut
  · next hstage =>
    have hnot : ∀ leader, ¬FollowerAt cfg s c leader call.stage := by
      rw [hstage]
      exact fun _ => id
    split at htimeOut
    · cases htimeOut
      exact h.restage hcall (hs.restage_failing _ (by rw [hstage]; rfl) hnot) (by rw [hstage]; rfl) rfl
        rfl (fun _ _ hholds => .inl hholds) rfl
    · cases htimeOut
  · next hstage =>
    split at htimeOut
    · split at htimeOut
      · cases htimeOut
        have hsound := hs.restage .timedOut (by simp) nofun nofun nofun nofun
          (.inl (hs.unended (by rw [hstage]; rfl))) fun _ _ _ => trivial
        exact h.restage hcall hsound (by rw [hstage]; rfl) rfl rfl (fun _ _ hholds => .inl hholds) rfl
      · cases htimeOut
    · cases htimeOut
  · cases htimeOut

end Kept

end Reference
