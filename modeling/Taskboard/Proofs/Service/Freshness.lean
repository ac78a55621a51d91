import Taskboard.Proofs.Service.Asking
import Taskboard.Proofs.Service.Reopening

/-!
# Proofs/Service/Freshness — how old the tasks of an answer are

A service is asked for things while its clock moves on and its files change or go away
(`Service.Turn`).  At some turns the tasks are read anew (`Service.readAt?`).

* `Service.remembers_start` — what is kept of the tasks was read at a turn, and nothing was read
  since.
* `Service.tasks_are_recent` — **the tasks of an answer were read at most the life of the cache
  before it**; a reading that fails changes nothing, so the next request reads again.
-/

namespace Taskboard.Service

variable {s first : Service} {r : Request} {turns : List Turn} {c : TaskCache}

/-! ## Turns -/

/-- What happens to a service: somebody asks for something, time passes, or its files become other
ones. -/
inductive Turn where
  | request (r : Request)
  | wait (ms : Nat)
  | edit (files : FileTree)

/-- The service after a turn. -/
def take (s : Service) : Turn → Service
  | .request r => (s.handle r).2
  | .wait ms => s.advance ms
  | .edit files => { s with store := { s.store with files } }

/-- The service after some turns. -/
def play (turns : List Turn) (s : Service) : Service := turns.foldl take s

theorem play_concat (turns : List Turn) (t : Turn) (s : Service) :
    play (turns ++ [t]) s = (play turns s).take t := by
  rw [play, List.foldl_append]
  rfl

/-! ## Readings -/

/-- **The tasks that a turn reads anew**, with the time: a request asks for them, those that are
kept are too old or not wanted, and the store gives some. -/
def readAt? (s : Service) : Turn → Option TaskCache
  | .request r => (s.asks? r).bind fun force =>
    if force || s.isStale then (s.store.tasks "").toOption.map fun tasks => ⟨s.now, tasks⟩ else none
  | .wait _ | .edit _ => none

/-- A reading of tasks at one of some turns. -/
def WasRead (first : Service) (turns : List Turn) (c : TaskCache) : Prop :=
  ∃ before t behind, turns = before ++ t :: behind ∧ (play before first).readAt? t = some c

theorem wasRead_concat {t : Turn} : WasRead first (turns ++ [t]) c ↔
    WasRead first turns c ∨ (play turns first).readAt? t = some c := by
  constructor
  · rintro ⟨before, u, behind, hturns, hread⟩
    rcases List.eq_nil_or_concat behind with rfl | ⟨behind, v, rfl⟩
    · obtain ⟨rfl, hlast⟩ := List.append_inj' hturns rfl
      obtain rfl := List.singleton_inj.mp hlast
      exact .inr hread
    · rw [List.concat_eq_append, ← List.cons_append, ← List.append_assoc] at hturns
      obtain ⟨rfl, -⟩ := List.append_inj' hturns rfl
      exact .inl ⟨before, u, behind, rfl, hread⟩
  · rintro (⟨before, u, behind, rfl, hread⟩ | hread)
    · exact ⟨before, u, behind ++ [t], by simp, hread⟩
    · exact ⟨turns, t, [], rfl, hread⟩

/-- What is kept once the tasks were got is what was read for it, or what was kept before. -/
theorem tasks_cache (force : Bool) (s : Service) : (s.tasks force).2.cache =
    (if force || s.isStale then (s.store.tasks "").toOption.map fun tasks => ⟨s.now, tasks⟩
      else none).or s.cache := by
  cases hread : force || s.isStale with
  | false => rw [tasks_kept hread]; rfl
  | true =>
    rw [tasks_anew hread, reload]
    cases s.store.tasks "" <;> rfl

/-- **What is kept after a turn is what the turn read**, or what was kept before. -/
theorem take_cache (t : Turn) (s : Service) : (s.take t).cache = (s.readAt? t).or s.cache := by
  cases t with
  | request r =>
    rw [take, readAt?]
    cases hasks : s.asks? r with
    | none =>
      obtain ⟨reply, session, hquiet⟩ := handle_quiet hasks
      exact congrArg (fun p => p.2.cache) (hquiet s.cache)
    | some force =>
      obtain ⟨session, hafter⟩ := handle_asking hasks
      rw [hafter]
      exact tasks_cache force s
  | wait ms =>
    rw [take, advance]
    split <;> rfl
  | edit files => rfl

/-- The clock of a service moves on. -/
theorem now_le_take (t : Turn) (s : Service) : s.now ≤ (s.take t).now := by
  cases t with
  | request r =>
    refine Int.le_of_eq ?_
    rw [take]
    cases hasks : s.asks? r with
    | none =>
      obtain ⟨reply, session, hquiet⟩ := handle_quiet hasks
      exact (congrArg (fun p => p.2.now) (hquiet s.cache)).symm
    | some force =>
      obtain ⟨session, hafter⟩ := handle_asking hasks
      rw [hafter, tasks_eq]
      rfl
  | wait ms =>
    have hlater : s.now ≤ s.now + ms := Int.le_add_of_nonneg_right (Int.natCast_nonneg ms)
    rw [take, advance]
    split <;> exact hlater
  | edit files => exact Int.le_refl _

theorem loadedAt_of_readAt? {t : Turn} (h : s.readAt? t = some c) : c.loadedAt = s.now := by
  cases t with
  | request r =>
    obtain ⟨force, -, h⟩ := Option.bind_eq_some_iff.mp h
    obtain ⟨-, h⟩ := Option.ite_none_right_eq_some.mp h
    obtain ⟨tasks, -, rfl⟩ := Option.map_eq_some_iff.mp h
    rfl
  | wait ms => cases h
  | edit files => cases h

/-! ## What is kept -/

/-- **What is kept of the tasks is what was read last.** -/
structure Remembers (first : Service) (turns : List Turn) : Prop where
  read : ∀ k ∈ (play turns first).cache, WasRead first turns k
  latest : ∀ c, WasRead first turns c →
    ∃ k ∈ (play turns first).cache, c.loadedAt ≤ k.loadedAt
  past : ∀ k ∈ (play turns first).cache, k.loadedAt ≤ (play turns first).now

/-- **A turn keeps that.** -/
theorem Remembers.concat (h : Remembers first turns) (t : Turn) :
    Remembers first (turns ++ [t]) := by
  have hcache : (play (turns ++ [t]) first).cache
      = ((play turns first).readAt? t).or (play turns first).cache := by
    rw [play_concat, take_cache]
  have hnow : (play turns first).now ≤ (play (turns ++ [t]) first).now := by
    rw [play_concat]
    exact now_le_take t _
  cases hread : (play turns first).readAt? t with
  | none =>
    rw [hread, Option.none_or] at hcache
    refine ⟨fun k hk => ?_, fun c hc => ?_, fun k hk => ?_⟩
    · exact wasRead_concat.mpr (.inl (h.read k (hcache ▸ hk)))
    · rcases wasRead_concat.mp hc with hc | hc
      · rw [hcache]
        exact h.latest c hc
      · exact absurd (hread.symm.trans hc) (by simp)
    · exact Int.le_trans (h.past k (hcache ▸ hk)) hnow
  | some anew =>
    have hloaded := loadedAt_of_readAt? hread
    rw [hread, Option.some_or] at hcache
    refine ⟨fun k hk => ?_, fun c hc => ⟨anew, hcache, ?_⟩, fun k hk => ?_⟩
    · obtain rfl := Option.some.inj (hcache.symm.trans hk)
      exact wasRead_concat.mpr (.inr hread)
    · rcases wasRead_concat.mp hc with hc | hc
      · obtain ⟨k, hk, hle⟩ := h.latest c hc
        rw [hloaded]
        exact Int.le_trans hle (h.past k hk)
      · obtain rfl := Option.some.inj (hread.symm.trans hc)
        exact Int.le_refl _
    · obtain rfl := Option.some.inj (hcache.symm.trans hk)
      rw [hloaded]
      exact hnow

theorem Remembers.append : ∀ {turns : List Turn}, Remembers first turns →
    ∀ more : List Turn, Remembers first (turns ++ more)
  | turns, h, [] => by rwa [List.append_nil]
  | turns, h, t :: more => by
    rw [List.append_cons]
    exact (h.concat t).append more

/-- **Whatever happens, what is kept of the tasks is what was read last.** -/
theorem remembers_start (settings : Settings) (store : Store) (turns : List Turn) :
    Remembers (start settings store) turns := by
  have hnone : Remembers (start settings store) [] := by
    refine ⟨fun k hk => ?_, fun c hc => ?_, fun k hk => ?_⟩
    · exact absurd hk (Option.not_mem_none k)
    · obtain ⟨before, t, behind, hturns, -⟩ := hc
      exact absurd hturns (by simp)
    · exact absurd hk (Option.not_mem_none k)
  exact hnone.append turns

/-- What is kept is too old if all readings are. -/
theorem Remembers.isStale_iff (h : Remembers first turns) :
    (play turns first).isStale = true ↔
      ∀ c, WasRead first turns c → c.loadedAt + cacheLife < (play turns first).now := by
  unfold isStale
  cases hcache : (play turns first).cache with
  | none =>
    refine iff_of_true rfl fun c hc => ?_
    obtain ⟨k, hk, -⟩ := h.latest c hc
    exact absurd (hcache.symm.trans hk) (by simp)
  | some k =>
    rw [decide_eq_true_iff]
    constructor
    · intro hstale c hc
      obtain ⟨last, hlast, hle⟩ := h.latest c hc
      obtain rfl := Option.some.inj (hcache.symm.trans hlast)
      omega
    · intro hold
      have hk := hold k (h.read k hcache)
      omega

/-- What is kept of the tasks, while it is not too old. -/
theorem exists_cache_of_not_isStale (h : s.isStale = false) :
    ∃ k, s.cache = some k ∧ s.now ≤ k.loadedAt + cacheLife ∧ s.kept = k.tasks := by
  unfold isStale at h
  unfold kept
  cases hcache : s.cache with
  | none => rw [hcache] at h; cases h
  | some k =>
    rw [hcache] at h
    have hlife := of_decide_eq_false h
    exact ⟨k, rfl, by omega, rfl⟩

/-! ## Answers -/

/-- A request is answered from some tasks: it gets what it would get from a service that has just
read these. -/
def AnswersFrom (tasks : List Task) (r : Request) (s : Service) : Prop :=
  (s.handle r).1 = ((s.having tasks).handle r.unforced).1

/-- **The tasks of an answer are recent.** -/
theorem tasks_are_recent (settings : Settings) (store : Store) (turns : List Turn) (r : Request) :
    let first := start settings store
    let s := play turns first
    (s.asks? r = none → (s.handle r).2.cache = s.cache ∧
      ∀ c, ((s.keeping c).handle r).1 = (s.handle r).1) ∧
    ∀ force, s.asks? r = some force →
      let due := force = true ∨ ∀ c, WasRead first turns c → c.loadedAt + cacheLife < s.now
      (due → match s.store.tasks "" with
        | .ok tasks => AnswersFrom tasks r s ∧ (s.handle r).2.cache = some ⟨s.now, tasks⟩
        | .error f => s.handle r = (headOnly (upperText r.method) (.ofFault f), s)) ∧
      (¬due → ∃ c, WasRead first turns c ∧ c.loadedAt ≤ s.now ∧ s.now ≤ c.loadedAt + cacheLife ∧
        AnswersFrom c.tasks r s ∧ (s.handle r).2.cache = s.cache) := by
  intro first s
  have hremembers := remembers_start settings store turns
  constructor
  · intro hasks
    obtain ⟨reply, session, hquiet⟩ := handle_quiet hasks
    have hs : s.handle r = _ := hquiet s.cache
    refine ⟨by rw [hs]; rfl, fun c => ?_⟩
    rw [hquiet c, hs]
  · intro force hasks due
    obtain ⟨session, hafter⟩ := handle_asking hasks
    have hdue : due ↔ (force || s.isStale) = true := by
      rw [Bool.or_eq_true, hremembers.isStale_iff]
    constructor
    · intro h
      have hanew := tasks_anew (hdue.mp h)
      rw [reload] at hanew
      cases hstore : s.store.tasks "" with
      | ok tasks =>
        rw [hstore] at hanew
        refine ⟨answer_of_tasks hasks (by rw [hanew]), ?_⟩
        rw [hafter, hanew]
      | error f =>
        rw [hstore] at hanew
        exact handle_error hasks (by rw [hanew])
    · intro h
      have hnot : (force || s.isStale) = false := Bool.eq_false_iff.mpr (mt hdue.mpr h)
      have hkept := tasks_kept hnot
      obtain ⟨k, hcache, hlife, hk⟩ :=
        exists_cache_of_not_isStale (Bool.or_eq_false_iff.mp hnot).2
      refine ⟨k, hremembers.read k hcache, hremembers.past k hcache, hlife,
        answer_of_tasks hasks (by rw [hkept, hk]), ?_⟩
      rw [hafter, hkept]

/-! ## A workspace that goes away -/

/-- A workspace with one task, in a folder of its own. -/
def inFolder : Store where
  root := ⟨1, ["work"]⟩
  schedulePath := ⟨1, ["work", "schedule.json"]⟩
  files := ⟨[(⟨1, ["work"]⟩, .folder), (⟨1, ["work", "a.md"]⟩, .file [] Store.ofFiles.noon)]⟩
  clock := Store.ofFiles.noon

/-- The tasks are listed, and some time later the workspace is gone. -/
def listAndLose (ms : Nat) : List Turn := [.request listing, .wait ms, .edit .empty]

/-- Without its workspace the service lists the tasks for as long as they are kept, then fails; the
failure changes nothing. -/
theorem tasks_are_recent_without_workspace :
    let first := start usualSettings inFolder
    let s := play (listAndLose 5000) first
    let t := play (listAndLose 5001) first
    (s.handle listing).1.status = 200 ∧
    (∃ c, WasRead first (listAndLose 5000) c ∧ c.loadedAt ≤ s.now ∧ s.now ≤ c.loadedAt + cacheLife ∧
      AnswersFrom c.tasks listing s ∧ (s.handle listing).2.cache = s.cache) ∧
    ∃ f, t.handle listing = (.ofFault f, t) := by
  intro first s t
  have hs : s.asks? listing = some false ∧ s.isStale = false ∧
      (s.handle listing).1.status = 200 := by decide +kernel
  have ht : t.asks? listing = some false ∧ t.isStale = true ∧
      (t.store.tasks "").isOk = false := by decide +kernel
  have hkept := ((tasks_are_recent usualSettings inFolder (listAndLose 5000) listing).2 false
    hs.1).2
  have hlost := ((tasks_are_recent usualSettings inFolder (listAndLose 5001) listing).2 false
    ht.1).1
  rw [← (remembers_start usualSettings inFolder _).isStale_iff] at hkept hlost
  refine ⟨hs.2.2, hkept ?_, ?_⟩
  · rintro (hforce | hstale)
    · cases hforce
    · exact absurd (hs.2.1.symm.trans hstale) (by decide)
  · have hfails := hlost (.inr ht.2.1)
    change match t.store.tasks "" with | .ok _ => _ | .error _ => _ at hfails
    cases hstore : t.store.tasks "" with
    | ok tasks =>
      rw [hstore] at ht
      exact absurd ht.2.2 Bool.true_eq_false.mp
    | error f =>
      rw [hstore] at hfails
      exact ⟨f, hfails⟩

end Taskboard.Service
