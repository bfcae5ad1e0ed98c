import Mathlib.Data.List.Count
import Mathlib.Data.List.Range
import SglangOmni.Reference.Kept

/-! What the service guarantees in every interleaving of calls, worker and shutdown: one leader for a key, an
answer for every follower that stays, a cache of revalidated values, and one completion for every entry of the
batch queue. -/

namespace Reference

open Lib

variable {κ σ α ε : Type} [DecidableEq κ] {cfg : Options κ σ α ε}
  {s s' : ReferenceEncodeService κ σ α ε} {c : ℕ} {call call' : Call κ σ α ε} {key : κ}

/-! ### The queue of the batches -/

def Worker.held : Worker α ε → List ℕ
  | .collecting batch | .encoding batch _ | .retrying batch _ _ _ => batch
  | .completing outcomes _ => outcomes.map Prod.fst
  | .absent | .idle | .draining | .stopped => []

/-- Every entry was completed, is in the hands of the worker or waits in the queue, in the order of their
arrival. -/
structure Lined (s : ReferenceEncodeService κ σ α ε) : Prop where
  line : s.completions.map Prod.fst ++ (s.worker.held ++ s.batchQueue.filterMap id) =
    List.range s.entries
  retried : ∀ batch stopping results rest, s.worker = .retrying batch stopping results rest →
    results.length + rest.length = batch.length

omit [DecidableEq κ] in
theorem Lined.congr (h : Lined s) (hcompletions : s'.completions = s.completions)
    (hworker : s'.worker = s.worker) (hqueue : s'.batchQueue = s.batchQueue)
    (hentries : s'.entries = s.entries) : Lined s' := by
  refine ⟨?_, ?_⟩
  · rw [hcompletions, hworker, hqueue, hentries]
    exact h.line
  · rw [hworker]
    exact h.retried

omit [DecidableEq κ] in
theorem Lined.rework (h : Lined s) (worker : Worker α ε) (hheld : worker.held = s.worker.held)
    (hretried : ∀ batch stopping results rest, worker = .retrying batch stopping results rest →
      results.length + rest.length = batch.length) : Lined { s with worker := worker } := by
  refine ⟨?_, hretried⟩
  show s.completions.map Prod.fst ++ (worker.held ++ s.batchQueue.filterMap id) = _
  rw [hheld]
  exact h.line

omit [DecidableEq κ] in
theorem map_fst_allRaised (batch : List ℕ) (e : ε) :
    (allRaised batch e : List (ℕ × Except ε α)).map Prod.fst = batch := by
  unfold allRaised
  rw [List.map_map]
  exact List.map_id batch

omit [DecidableEq κ] in
theorem Lined.encodeBatch (h : Lined s) {batch : List ℕ} {stopping : Bool}
    (hworker : s.worker = .encoding batch stopping) : Lined (encodeBatch cfg s batch stopping) := by
  have hheld : s.worker.held = batch := by rw [hworker]; rfl
  have hretry : Lined { s with worker := .retrying batch stopping [] batch } :=
    h.rework _ hheld.symm (by rintro _ _ _ _ ⟨⟩; exact Nat.zero_add _)
  unfold Reference.encodeBatch
  split
  · split
    · next artifacts _ hlength =>
      have hdone := h.rework (.completing (batch.zip (artifacts.map Except.ok)) stopping)
        (by
          rw [hheld]
          exact List.map_fst_zip (by rw [List.length_map, hlength])) nofun
      exact hdone.congr rfl rfl rfl rfl
    · exact hretry
  · split
    · exact hretry
    · exact h.rework _ ((map_fst_allRaised batch _).trans hheld.symm) nofun

omit [DecidableEq κ] in
theorem Lined.encodeItem (h : Lined s) {batch rest : List ℕ} {stopping : Bool}
    {results : List (Except ε α)} {entry : ℕ}
    (hworker : s.worker = .retrying batch stopping results (entry :: rest)) :
    Lined (encodeItem cfg s batch stopping results entry rest) := by
  have hheld : s.worker.held = batch := by rw [hworker]; rfl
  have hlength := h.retried _ _ _ _ hworker
  have hnext (result : Except ε α) :
      Lined { s with worker := .retrying batch stopping (results ++ [result]) rest } := by
    refine h.rework _ hheld.symm ?_
    rintro _ _ _ _ ⟨⟩
    rw [List.length_append, List.length_singleton]
    rw [List.length_cons] at hlength
    omega
  unfold Reference.encodeItem
  split
  · exact hnext _
  · split
    · exact hnext _
    · exact h.rework _ ((map_fst_allRaised batch _).trans hheld.symm) nofun

omit [DecidableEq κ] in
theorem Lined.work (h : Lined s) (hwork : work cfg s = some s') : Lined s' := by
  have hline := h.line
  unfold Reference.work at hwork
  split at hwork
  · cases hwork
  · next hworker =>
    rw [hworker] at hline
    split at hwork
    · cases hwork
    · next hqueue =>
      cases hwork
      rw [hqueue] at hline
      exact ⟨hline, nofun⟩
    · next hqueue =>
      cases hwork
      rw [hqueue] at hline
      exact ⟨hline, nofun⟩
  · next batch hworker =>
    rw [hworker] at hline
    split at hwork
    · split at hwork
      · cases hwork
      · next hqueue =>
        cases hwork
        rw [hqueue] at hline
        exact ⟨hline, nofun⟩
      · next hqueue =>
        cases hwork
        rw [hqueue] at hline
        refine ⟨?_, nofun⟩
        simpa [Worker.held] using hline
    · cases hwork
      exact ⟨hline, nofun⟩
  · next hworker =>
    cases hwork
    exact h.encodeBatch hworker
  · next batch stopping results hworker =>
    cases hwork
    have hlength := h.retried _ _ _ _ hworker
    refine h.rework _ ?_ nofun
    rw [hworker]
    exact List.map_fst_zip (Nat.le_of_eq hlength.symm)
  · next hworker =>
    cases hwork
    exact h.encodeItem hworker
  · next hworker =>
    cases hwork
    rw [hworker] at hline
    exact ⟨by split <;> exact hline, by split <;> exact nofun⟩
  · next hworker =>
    cases hwork
    rw [hworker] at hline
    refine ⟨?_, nofun⟩
    simpa [complete, Worker.held] using hline
  · next hworker =>
    rw [hworker] at hline
    split at hwork
    · cases hwork
      exact ⟨hline, nofun⟩
    · next hqueue =>
      cases hwork
      rw [hqueue] at hline
      refine ⟨?_, ?_⟩
      · simpa [hworker] using hline
      · rw [hworker]
        exact nofun
    · next hqueue =>
      cases hwork
      rw [hqueue] at hline
      refine ⟨?_, ?_⟩
      · simpa [complete, hworker, Worker.held] using hline
      · show ∀ batch stopping results rest, s.worker = _ → _
        rw [hworker]
        exact nofun
  · cases hwork

omit [DecidableEq κ] in
theorem Lined.enqueue (h : Lined s) : Lined (enqueue s c call) := by
  refine ⟨?_, h.retried⟩
  have hline := h.line
  show s.completions.map Prod.fst ++ (s.worker.held ++
    (s.batchQueue ++ [some s.entries]).filterMap id) = List.range (s.entries + 1)
  rw [List.range_succ, ← hline, List.filterMap_append]
  simp

theorem Lined.advance (h : Lined s) (hadvance : advance cfg s c call = some s') : Lined s' := by
  cases advance_cases hadvance with
  | own _ | uncacheable _ => exact h.congr rfl rfl rfl rfl
  | @looked key _ =>
    have hlooked := lookUp_cases cfg s c call key
    generalize lookUp cfg s c call key = after at hlooked ⊢
    cases hlooked <;> exact h.congr rfl rfl rfl rfl
  | enqueued _ _ => exact h.enqueue
  | @published key stored shouldCache _ _ =>
    have hpublished := publish_cases cfg s c call key stored shouldCache
    generalize publish cfg s c call key stored shouldCache = after at hpublished ⊢
    cases hpublished <;> exact h.congr rfl rfl rfl rfl
  | failed _ =>
    unfold fail
    simp only
    split <;> exact h.congr rfl rfl rfl rfl

/-! ### Runs -/

structure Apart (s s' : ReferenceEncodeService κ σ α ε) : Prop where
  calls : s'.calls = s.calls
  inflight : s'.inflight = s.inflight
  cache : s'.cache = s.cache
  counts : s'.hits + s'.merged + s'.misses + s'.uncacheable =
    s.hits + s.merged + s.misses + s.uncacheable

omit [DecidableEq κ] in
theorem work_apart (hwork : work cfg s = some s') : Apart s s' := by
  have hbatch (batch : List ℕ) (stopping : Bool) : Apart s (encodeBatch cfg s batch stopping) := by
    unfold encodeBatch
    repeat' split
    all_goals exact ⟨rfl, rfl, rfl, rfl⟩
  have hitem (batch : List ℕ) (stopping : Bool) (results : List (Except ε α)) (entry : ℕ)
      (rest : List ℕ) : Apart s (encodeItem cfg s batch stopping results entry rest) := by
    unfold encodeItem
    repeat' split
    all_goals exact ⟨rfl, rfl, rfl, rfl⟩
  unfold work at hwork
  repeat' split at hwork
  all_goals cases hwork
  all_goals first
    | exact hbatch _ _
    | exact hitem _ _ _ _ _
    | exact ⟨rfl, rfl, rfl, rfl⟩

theorem step_keeps {a : Act} (h : Kept cfg s ∧ Lined s) (hstep : (service cfg).step s a = some s') :
    Kept cfg s' ∧ Lined s' := by
  obtain ⟨hkept, hlined⟩ := h
  cases a with
  | enter =>
    cases hstep
    exact ⟨hkept.enter, hlined.congr rfl rfl rfl rfl⟩
  | advance c =>
    obtain ⟨call, hcall, hadvance⟩ := Option.bind_eq_some_iff.mp hstep
    exact ⟨hkept.advance hcall hadvance, hlined.advance hadvance⟩
  | timeOut c =>
    obtain ⟨call', htimeOut, rfl⟩ := Option.map_eq_some_iff.mp hstep
    obtain ⟨call, hcall, htimeOut⟩ := Option.bind_eq_some_iff.mp htimeOut
    exact ⟨hkept.timeOut hcall htimeOut, hlined.congr rfl rfl rfl rfl⟩
  | work =>
    have hapart := work_apart hstep
    exact ⟨hkept.apart hapart.calls hapart.inflight hapart.cache hapart.counts, hlined.work hstep⟩
  | endWait =>
    have hwait : endWait cfg s = some s' := hstep
    unfold endWait at hwait
    split at hwait
    · next batch hworker =>
      split at hwait
      · cases hwait
        exact ⟨hkept.apart rfl rfl rfl rfl, hlined.rework _ (by rw [hworker]; rfl) fun _ _ _ _ h => by cases h⟩
      · cases hwait
    · cases hwait
  | close =>
    have hclose : (if cfg.batching then some { s with batchQueue := s.batchQueue ++ [none] }
      else some s) = some s' := hstep
    split at hclose
    · cases hclose
      refine ⟨hkept.apart rfl rfl rfl rfl, ?_, hlined.retried⟩
      have hline := hlined.line
      simpa [List.filterMap_append] using hline
    · cases hclose
      exact ⟨hkept, hlined⟩

/-- What has become of a follower: the answer that it gives for the outcome of its leader. -/
structure Answers (cfg : Options κ σ α ε) (c : ℕ) (call leader : Call κ σ α ε) : Prop where
  returned : ∀ artifact, call.stage = .returned artifact → ∃ stored, leader.stored = some stored ∧
    leader.future = some (.ok stored) ∧ cfg.hook.loadArtifact c stored = .ok artifact
  raised : ∀ e, call.stage = .raised e →
    (∃ stored, leader.stored = some stored ∧ leader.future = some (.ok stored) ∧
      cfg.hook.loadArtifact c stored = .error e) ∨
    ∃ failure, leader.stage = .raised failure ∧ leader.future = some (.error failure) ∧
      e = reraised cfg failure

structure Serves (cfg : Options κ σ α ε) (s : ReferenceEncodeService κ σ α ε) : Prop where
  leader_unique : ∀ (key : κ) (c d : ℕ) (call other : Call κ σ α ε), s.calls[c]? = some call →
    s.calls[d]? = some other → call.Leads key → other.Leads key → c = d
  removed_first : ∀ (c : ℕ) (call : Call κ σ α ε), s.calls[c]? = some call → call.future ≠ none →
    ∀ key, s.inflight.get? key ≠ some c
  followers : ∀ (c : ℕ) (call : Call κ σ α ε) (key : κ) (leader : ℕ), s.calls[c]? = some call →
    call.role = .follower key leader →
    ∃ other, s.calls[leader]? = some other ∧ other.role = .leader key ∧ Answers cfg c call other
  cached : ∀ key value, s.cache.Holds key value → ∃ (c : ℕ) (call : Call κ σ α ε) (stored : σ),
    s.calls[c]? = some call ∧ call.role = .leader key ∧ call.stored = some stored ∧
      (∃ artifact, cfg.hook.storeArtifact c artifact = .ok stored) ∧
      cfg.hook.revalidate c = .ok true ∧ cfg.cache.detachValue stored = .ok value
  counted : s.hits + s.merged + s.misses + s.uncacheable = s.calls.countP Call.past
  once : ∀ entry, (s.completions.map Prod.fst).count entry ≤ 1

/-- What a step may do to the keys in flight and when the worker may stop. -/
structure StepServes (cfg : Options κ σ α ε) (s s' : ReferenceEncodeService κ σ α ε) (a : Act) :
    Prop where
  releases : ∀ key c, s.inflight.get? key = some c → s'.inflight.get? key ≠ some c →
    a = .advance c ∧ ∃ call, s'.calls[c]? = some call ∧ call.role = .leader key ∧ call.future = none
  stops : s.worker ≠ .stopped → s'.worker = .stopped →
    ∀ entry < s'.entries, (s'.completions.map Prod.fst).count entry = 1

theorem Kept.answers (h : Kept cfg s) (hcall : s.calls[c]? = some call) {leader : ℕ}
    (hrole : call.role = .follower key leader) :
    ∃ other, s.calls[leader]? = some other ∧ other.role = .leader key ∧ Answers cfg c call other := by
  obtain ⟨⟨other, hother, hleads⟩, hat⟩ := (h.sound c call hcall).follower key leader hrole
  have hsound := h.sound leader other hother
  have hfuture {outcome : Except ε σ} (hf : futureOf s leader = some outcome) :
      other.future = some outcome := by
    unfold futureOf at hf
    rw [hother] at hf
    exact hf
  refine ⟨other, hother, hleads, ⟨fun artifact hstage => ?_, fun e hstage => ?_⟩⟩
  · rw [hstage] at hat
    obtain ⟨stored, hf, hload⟩ := hat
    exact ⟨stored, hsound.future_ok stored (hfuture hf), hfuture hf, hload⟩
  · rw [hstage] at hat
    rcases hat with ⟨stored, hf, hload⟩ | ⟨failure, hf, he⟩
    · exact .inl ⟨stored, hsound.future_ok stored (hfuture hf), hfuture hf, hload⟩
    · exact .inr ⟨failure, hsound.future_error failure (hfuture hf), hfuture hf, he⟩

theorem Kept.serves (h : Kept cfg s) (hline : Lined s) : Serves cfg s where
  leader_unique key c d call other hcall hother hleads hleads' := by
    have hc := (h.leads key c).mpr ⟨call, hcall, hleads⟩
    have hd := (h.leads key d).mpr ⟨other, hother, hleads'⟩
    exact Option.some.inj (hc.symm.trans hd)
  removed_first c call hcall hfuture key hkey := by
    obtain ⟨call', hcall', hleads⟩ := (h.leads key c).mp hkey
    cases hcall.symm.trans hcall'
    apply hfuture
    apply (h.sound c call hcall).unended
    have hholds := hleads.2
    cases hstage : call.stage <;> rw [hstage] at hholds <;> first | rfl | cases hholds
  followers c call key leader hcall hrole := h.answers hcall hrole
  cached key value hholds := by
    obtain ⟨c, call, stored, hcall, hrole, hstored, hcache, hdetach⟩ := h.cached key value hholds
    have hsound := h.sound c call hcall
    exact ⟨c, call, stored, hcall, hrole, hstored, hsound.stored_of stored hstored,
      hsound.revalidated hcache, hdetach⟩
  counted := h.counted
  once entry := by
    have hnodup : (s.completions.map Prod.fst).Nodup := by
      have hrange := List.nodup_range (n := s.entries)
      rw [← hline.line] at hrange
      exact (List.nodup_append.mp hrange).1
    exact List.nodup_iff_count_le_one.mp hnodup entry

theorem Kept.erased (h : Kept cfg s) {d : ℕ} {other : κ} (hcall : s.calls[d]? = some call)
    (hleads : call.Leads other) (hkey : s.inflight.get? key = some c)
    (hgone : (s.inflight.erase other).get? key ≠ some c) : other = key ∧ d = c := by
  have hown := (h.leads other d).mpr ⟨call, hcall, hleads⟩
  rw [Dict.get?_erase] at hgone
  split at hgone
  · next heq =>
    subst heq
    exact ⟨rfl, Option.some.inj (hown.symm.trans hkey)⟩
  · exact absurd hkey hgone

omit [DecidableEq κ] in
theorem endWait_inflight (h : endWait cfg s = some s') : s'.inflight = s.inflight := by
  unfold endWait at h
  repeat' split at h
  all_goals cases h
  rfl

theorem Kept.releases (h : Kept cfg s) {a : Act} (hstep : (service cfg).step s a = some s')
    (hkey : s.inflight.get? key = some c) (hgone : s'.inflight.get? key ≠ some c) :
    a = .advance c ∧ ∃ call, s'.calls[c]? = some call ∧ call.role = .leader key ∧
      call.future = none := by
  cases a with
  | advance d =>
    obtain ⟨call, hcall, hadvance⟩ := Option.bind_eq_some_iff.mp hstep
    cases advance_cases hadvance with
    | own _ | uncacheable _ | enqueued _ _ => exact absurd hkey hgone
    | @looked other hstage =>
      have hlooked := lookUp_cases cfg s d call other
      generalize Reference.lookUp cfg s d call other = after at hlooked hgone
      cases hlooked with
      | hit stored => exact absurd hkey hgone
      | follower _ => exact absurd hkey hgone
      | leader hnone =>
        exfalso
        apply hgone
        show (s.inflight.set other d).get? key = some c
        rw [Dict.get?_set, if_neg]
        · exact hkey
        · rintro rfl
          rw [hnone] at hkey
          cases hkey
    | @published other stored shouldCache hrole hstage =>
      have hpublished := publish_cases cfg s d call other stored shouldCache
      generalize Reference.publish cfg s d call other stored shouldCache = after at hpublished hgone ⊢
      have hnone := (h.sound d call hcall).unended (by rw [hstage]; rfl)
      cases hpublished with
      | failed e _ => exact absurd hkey hgone
      | done _ =>
        obtain ⟨rfl, rfl⟩ := h.erased hcall ⟨hrole, by rw [hstage]; rfl⟩ hkey hgone
        exact ⟨rfl, _, getElem?_set_of_some hcall _ _ |>.trans (if_pos rfl), hrole, hnone⟩
    | failed hstage =>
      have hnone := (h.sound d call hcall).unended (by rw [hstage]; rfl)
      unfold Reference.fail at hgone ⊢
      simp only at hgone ⊢
      split at hgone
      · next hrole =>
        obtain ⟨rfl, rfl⟩ := h.erased hcall ⟨hrole, by rw [hstage]; rfl⟩ hkey hgone
        rw [hrole]
        exact ⟨rfl, _, getElem?_set_of_some hcall _ _ |>.trans (if_pos rfl), rfl, hnone⟩
      · exact absurd hkey hgone
  | enter =>
    cases hstep
    exact absurd hkey hgone
  | timeOut d =>
    obtain ⟨call', -, rfl⟩ := Option.map_eq_some_iff.mp hstep
    exact absurd hkey hgone
  | work =>
    rw [(work_apart hstep).inflight] at hgone
    exact absurd hkey hgone
  | endWait =>
    have hsame : s'.inflight = s.inflight := endWait_inflight hstep
    rw [hsame] at hgone
    exact absurd hkey hgone
  | close =>
    have hclose : (if cfg.batching then some { s with batchQueue := s.batchQueue ++ [none] }
      else some s) = some s' := hstep
    split at hclose <;> cases hclose <;> exact absurd hkey hgone

theorem advance_worker (h : advance cfg s c call = some s') : s'.worker = s.worker := by
  cases advance_cases h with
  | own _ | uncacheable _ | enqueued _ _ => rfl
  | @looked other _ =>
    have hlooked := lookUp_cases cfg s c call other
    generalize lookUp cfg s c call other = after at hlooked ⊢
    cases hlooked <;> rfl
  | @published other stored shouldCache _ _ =>
    have hpublished := publish_cases cfg s c call other stored shouldCache
    generalize publish cfg s c call other stored shouldCache = after at hpublished ⊢
    cases hpublished <;> rfl
  | failed _ =>
    unfold fail
    simp only
    split <;> rfl

omit [DecidableEq κ] in
theorem work_stops (hbefore : s.worker ≠ .stopped) (hafter : s'.worker = .stopped)
    (hwork : work cfg s = some s') : s'.batchQueue = [] := by
  have hbatch (batch : List ℕ) (stopping : Bool) :
      (encodeBatch cfg s batch stopping).worker ≠ .stopped := by
    unfold encodeBatch
    repeat' split
    all_goals exact nofun
  have hitem (batch : List ℕ) (stopping : Bool) (results : List (Except ε α)) (entry : ℕ)
      (rest : List ℕ) : (encodeItem cfg s batch stopping results entry rest).worker ≠ .stopped := by
    unfold encodeItem
    repeat' split
    all_goals exact nofun
  unfold work at hwork
  split at hwork
  · cases hwork
  · split at hwork <;> cases hwork <;> cases hafter
  · split at hwork
    · split at hwork <;> cases hwork <;> cases hafter
    · cases hwork
      cases hafter
  · cases hwork
    exact absurd hafter (hbatch _ _)
  · cases hwork
    cases hafter
  · cases hwork
    exact absurd hafter (hitem _ _ _ _ _)
  · cases hwork
    simp only at hafter
    split at hafter <;> cases hafter
  · cases hwork
    cases hafter
  · split at hwork
    · next hqueue =>
      cases hwork
      exact hqueue
    · cases hwork
      exact absurd hafter hbefore
    · cases hwork
      exact absurd hafter hbefore
  · cases hwork

theorem stops_empty {a : Act} (hbefore : s.worker ≠ .stopped) (hafter : s'.worker = .stopped)
    (hstep : (service cfg).step s a = some s') : s'.batchQueue = [] := by
  cases a with
  | enter =>
    cases hstep
    exact absurd hafter hbefore
  | advance d =>
    obtain ⟨call, -, hadvance⟩ := Option.bind_eq_some_iff.mp hstep
    exact absurd ((advance_worker hadvance).symm.trans hafter) hbefore
  | timeOut d =>
    obtain ⟨call', -, rfl⟩ := Option.map_eq_some_iff.mp hstep
    exact absurd hafter hbefore
  | work => exact work_stops hbefore hafter hstep
  | endWait =>
    have hwait : endWait cfg s = some s' := hstep
    unfold endWait at hwait
    repeat' split at hwait
    all_goals cases hwait
    cases hafter
  | close =>
    have hclose : (if cfg.batching then some { s with batchQueue := s.batchQueue ++ [none] }
      else some s) = some s' := hstep
    split at hclose <;> cases hclose <;> exact absurd hafter hbefore

theorem step_serves {a : Act} (h : Kept cfg s) (hline : Lined s)
    (hstep : (service cfg).step s a = some s') : StepServes cfg s s' a where
  releases key c hkey hgone := h.releases hstep hkey hgone
  stops hbefore hafter entry hentry := by
    have hline' := (step_keeps ⟨h, hline⟩ hstep).2.line
    have hempty : s'.batchQueue = [] := stops_empty hbefore hafter hstep
    rw [hafter, hempty] at hline'
    simp only [Worker.held, List.filterMap_nil, List.append_nil] at hline'
    rw [hline', List.count_eq_one_of_mem List.nodup_range (List.mem_range.mpr hentry)]


theorem kept_init : Kept cfg (service cfg).init where
  leads key c := by
    constructor
    · exact nofun
    · rintro ⟨call, hcall, -⟩
      cases hcall
  sound _ _ hcall := nomatch hcall
  cached _ _ hholds := by
    obtain ⟨entry, hmem, -⟩ := hholds
    cases hmem
  counted := rfl

theorem lined_init : Lined (service cfg).init := by
  refine ⟨?_, ?_⟩
  · show [] ++ ((if cfg.batching then Worker.idle else .absent : Worker α ε).held ++ []) = _
    split <;> rfl
  · show ∀ _ _ _ _, (if cfg.batching then Worker.idle else .absent : Worker α ε) = _ → _
    split <;> exact nofun

/-- In every interleaving each key has one leader, which removes its own entry before it completes its future;
a follower that does not time out gives what `load_artifact` makes of the value that its leader stored, or
raises its leader's failure; the cache holds what leaders have stored and revalidated; every call is counted
once; and the futures of all entries put before the worker stops are completed once. -/
theorem service_serves (h : (service cfg).Reaches Machine.anyAction s) :
    Serves cfg s ∧ ∀ a s', (service cfg).step s a = some s' → StepServes cfg s s' a := by
  have hkeeps : Kept cfg s ∧ Lined s := h.invariant (P := fun s => Kept cfg s ∧ Lined s)
    ⟨kept_init, lined_init⟩ fun s a s' hkeeps _ hstep => step_keeps hkeeps hstep
  exact ⟨hkeeps.1.serves hkeeps.2, fun a s' hstep => step_serves hkeeps.1 hkeeps.2 hstep⟩

/-! ### A run -/

def loadFails : Options Unit ℕ ℕ ℕ where
  hook := {
    cacheKey := fun _ => .ok (some ())
    encodeOne := fun c => .ok c
    encodeEntry := fun entry => .ok entry
    encodeBatch := fun batch => .ok batch
    storeArtifact := fun _ artifact => .ok artifact
    revalidate := fun _ => .ok true
    loadArtifact := fun c stored => if c = 1 then .error 7 else .ok stored }
  cache := { maxSize := some 1, maxBytes := none, sizeFn := fun _ => 0, detachValue := .ok }
  batching := false
  maxBatchSize := 1
  isNone := fun _ => false
  isException := fun _ => true
  isTimeout := fun _ => false
  timeoutError := 0
  shutdownError := 1
  freshException := id

def twoCalls : List Act :=
  [.enter, .enter, .advance 0, .advance 0, .advance 1, .advance 1, .advance 0, .advance 0, .advance 0,
    .advance 0, .advance 0, .advance 0, .advance 1, .advance 1]

theorem twoCalls_path {s : ReferenceEncodeService Unit ℕ ℕ ℕ}
    (h : (service loadFails).exec (service loadFails).init twoCalls = some s) :
    (service loadFails).Reaches Machine.anyAction s := Machine.path_of_exec h

theorem twoCalls_runs : ∃ s, (service loadFails).Reaches Machine.anyAction s ∧
    s.calls[0]? = some
      { role := .leader (), stage := .returned 0, stored := some 0, shouldCache := true,
        future := some (.ok 0) } ∧
    s.calls[1]? = some { role := .follower () 0, stage := .raised 7 } ∧ s.cache.Holds () 0 := by
  refine ⟨_, twoCalls_path rfl, rfl, rfl, ⟨0, 0⟩, ?_, rfl⟩
  exact List.mem_cons_self

theorem service_serves_twoCalls : ∃ s, (service loadFails).Reaches Machine.anyAction s ∧
    (∃ call, s.calls[1]? = some call ∧ call.role = .follower () 0) ∧ Serves loadFails s := by
  obtain ⟨s, hreaches, -, hfollower, -⟩ := twoCalls_runs
  exact ⟨s, hreaches, ⟨_, hfollower, rfl⟩, (service_serves hreaches).1⟩

def FollowersEndAsLeaders (cfg : Options κ σ α ε) (s : ReferenceEncodeService κ σ α ε) : Prop :=
  ∀ (c : ℕ) (call : Call κ σ α ε) (key : κ) (leader : ℕ) (other : Call κ σ α ε),
    s.calls[c]? = some call → call.role = .follower key leader → s.calls[leader]? = some other →
      (∀ artifact, call.stage = .returned artifact → ∃ stored, other.stored = some stored ∧
        cfg.hook.loadArtifact c stored = .ok artifact) ∧
      ∀ e, call.stage = .raised e → ∃ failure, other.future = some (.error failure)

/-- A follower raises what `load_artifact` raises there, although its leader has succeeded. -/
theorem follower_raises_its_own : ∃ s, (service loadFails).Reaches Machine.anyAction s ∧
    ¬FollowersEndAsLeaders loadFails s := by
  obtain ⟨s, hreaches, hleader, hfollower, -⟩ := twoCalls_runs
  refine ⟨s, hreaches, fun hends => ?_⟩
  obtain ⟨failure, hfailure⟩ := (hends 1 _ () 0 _ hfollower rfl hleader).2 7 rfl
  cases hfailure

end Reference
