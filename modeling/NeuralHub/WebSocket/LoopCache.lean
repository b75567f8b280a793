/-
NeuralHub.WebSocket.LoopCache — the agent loops that are kept between the
runs of a session: `websocket_loop_cache.py`.

An `OrderedDict` is a `Dict` whose last item is the one used last; loops
are objects, and a `LoopId` says which one. Which sessions are busy is
decided by the holder of the cache and given to `store` as a function.

`store_evicts` says exactly what a write evicts: the idle sessions used
least recently, as many as there are too many. So a busy session keeps its
loop, and the cap holds unless all others are busy.
-/
import NeuralHub.Lib.Dict
import NeuralHub.Lib.Recency

namespace NeuralHub.WebSocket

open NeuralHub.Lib

/-- An `AgentLoop`, by its identity. -/
abbrev LoopId := Nat

structure LoopSettings where
  model : String := ""
  providerId : Option String := none
  workspace : Option String := none
  permissionMode : String := "auto"
  thinking : Bool := false
  maxTokens : Nat := 16384
  /-- a float is a rational number -/
  temperature : Rat := 7 / 10
  specId : String := ""
  mode : String := "direct"
  knowledgeBaseId : Option String := none
  deriving DecidableEq

/-- `MAX_CACHED_LOOPS`. -/
def maxCachedLoops : Nat := 64

structure LoopCache where
  loops : Dict LoopId := Dict.nil
  settings : Dict LoopSettings := Dict.nil
  maxLoops : Nat := maxCachedLoops

namespace LoopCache

/-- A hit makes the session the one used last. -/
def get (cache : LoopCache) (session : String) : Option LoopId × LoopCache :=
  match cache.loops.get session with
  | some loop => (some loop, { cache with loops := cache.loops.putLast (session, loop) })
  | none => (none, cache)

def pop (cache : LoopCache) (session : String) : LoopCache :=
  { cache with loops := cache.loops.remove session, settings := cache.settings.remove session }

/-- The loop of `store` over the sessions that were there; gives back what it evicts. -/
def evict (isBusy : String → Bool) (stored : String) :
    List String → LoopCache → LoopCache × List (String × LoopId)
  | [], cache => (cache, [])
  | candidate :: rest, cache =>
    if cache.loops.entries.length ≤ cache.maxLoops then (cache, [])
    else if candidate = stored ∨ isBusy candidate = true then evict isBusy stored rest cache
    else
      let victim := (cache.loops.get candidate).toList.map fun loop => (candidate, loop)
      let result := evict isBusy stored rest (cache.pop candidate)
      (result.1, victim ++ result.2)

def store (isBusy : String → Bool) (cache : LoopCache) (session : String) (loop : LoopId)
    (settings : LoopSettings) : LoopCache × List (String × LoopId) :=
  let cache := { cache with
    loops := cache.loops.putLast (session, loop)
    settings := cache.settings.set session settings }
  evict isBusy session (cache.loops.entries.map Prod.fst) cache

/-! ## Reading -/

variable {isBusy : String → Bool} {cache : LoopCache} {session stored k : String} {loop : LoopId}
  {settings : LoopSettings} {candidates : List String}

/-- The session is moved to the end, with this loop. -/
theorem get_loops_putLast (d : Dict LoopId) (session : String) (loop : LoopId) (k : String) :
    Dict.get (d.putLast (session, loop)) k = if k = session then some loop else d.get k := by
  unfold Dict.get
  rw [Table.find_putLast]
  split <;> simp

theorem get_fst : (cache.get session).1 = cache.loops.get session := by
  unfold get
  cases h : cache.loops.get session <;> simp

@[simp] theorem get_snd_loops (k : String) :
    (cache.get session).2.loops.get k = cache.loops.get k := by
  unfold get
  cases h : cache.loops.get session with
  | none => rfl
  | some loop =>
    simp only [get_loops_putLast]
    split
    · next hk => rw [hk, h]
    · rfl

@[simp] theorem get_snd_settings : (cache.get session).2.settings = cache.settings := by
  unfold get
  cases cache.loops.get session <;> rfl

@[simp] theorem pop_loops (k : String) :
    (cache.pop session).loops.get k = if k = session then none else cache.loops.get k :=
  Dict.get_remove _ _ _

/-! ## Eviction -/

/-- Neither the session that is stored nor a busy one. -/
def Idle (isBusy : String → Bool) (stored k : String) : Prop := k ≠ stored ∧ isBusy k = false

instance : DecidablePred (Idle isBusy stored) := fun _ => inferInstanceAs (Decidable (_ ∧ _))

theorem idle_iff : Idle isBusy stored k ↔ ¬(k = stored ∨ isBusy k = true) := by
  simp [Idle]

theorem length_pop {loop : LoopId} (h : cache.loops.get session = some loop) :
    (cache.pop session).loops.entries.length + 1 = cache.loops.entries.length :=
  Table.length_erase_of_mem (List.mem_map_of_mem (Dict.get_eq_some_iff.mp h))

/-- What is evicted from the candidates, and what is left. -/
structure Evicts (isBusy : String → Bool) (stored : String) (candidates : List String)
    (cache : LoopCache) (result : LoopCache × List (String × LoopId)) : Prop where
  evicted : result.2.map Prod.fst =
    (candidates.filter (Idle isBusy stored)).take (cache.loops.entries.length - cache.maxLoops)
  victims : ∀ victim ∈ result.2, cache.loops.get victim.1 = some victim.2
  loops : ∀ k, result.1.loops.get k =
    if k ∈ result.2.map Prod.fst then none else cache.loops.get k
  length : result.1.loops.entries.length + result.2.length = cache.loops.entries.length
  maxLoops : result.1.maxLoops = cache.maxLoops

theorem evict_nil : evict isBusy stored [] cache = (cache, []) := rfl

theorem evict_cons (candidate : String) (rest : List String) :
    evict isBusy stored (candidate :: rest) cache =
      if cache.loops.entries.length ≤ cache.maxLoops then (cache, [])
      else if candidate = stored ∨ isBusy candidate = true then evict isBusy stored rest cache
      else
        let victim := (cache.loops.get candidate).toList.map fun loop => (candidate, loop)
        let result := evict isBusy stored rest (cache.pop candidate)
        (result.1, victim ++ result.2) := rfl

theorem evicts_evict (hnodup : candidates.Nodup)
    (hknown : ∀ k ∈ candidates, (cache.loops.get k).isSome) :
    Evicts isBusy stored candidates cache (evict isBusy stored candidates cache) := by
  induction candidates generalizing cache with
  | nil => constructor <;> simp [evict_nil]
  | cons candidate rest ih =>
    obtain ⟨hfirst, hrest⟩ := List.nodup_cons.mp hnodup
    have hlater : ∀ k ∈ rest, (cache.loops.get k).isSome := by
      intro k hk
      exact hknown k (List.mem_cons_of_mem _ hk)
    rw [evict_cons]
    split
    · next hfits =>
      have hzero : cache.loops.entries.length - cache.maxLoops = 0 := by omega
      constructor <;> simp [hzero]
    · next hfull =>
      split
      · next hkept =>
        have hidle : ¬Idle isBusy stored candidate := by simpa only [idle_iff, not_not] using hkept
        have hih := ih hrest hlater
        refine ⟨?_, hih.victims, hih.loops, hih.length, hih.maxLoops⟩
        rw [List.filter_cons_of_neg (by simpa using hidle)]
        exact hih.evicted
      · next hidle =>
        obtain ⟨loop, hloop⟩ := Option.isSome_iff_exists.mp (hknown candidate List.mem_cons_self)
        have hlength := length_pop hloop
        have hih : Evicts isBusy stored rest (cache.pop candidate)
            (evict isBusy stored rest (cache.pop candidate)) := by
          refine ih hrest fun k hk => ?_
          have hne : k ≠ candidate := fun h => hfirst (h ▸ hk)
          simpa [hne] using hlater k hk
        have hmax : (cache.pop candidate).maxLoops = cache.maxLoops := rfl
        simp only [hloop, Option.toList_some, List.map_cons, List.map_nil, List.singleton_append]
        constructor
        · have hcount : cache.loops.entries.length - cache.maxLoops =
              (cache.pop candidate).loops.entries.length - cache.maxLoops + 1 := by omega
          rw [List.filter_cons_of_pos (by simpa using idle_iff.mpr hidle), hcount,
            List.take_succ_cons, List.map_cons, hih.evicted, hmax]
        · intro victim hvictim
          rcases List.mem_cons.mp hvictim with rfl | hvictim
          · exact hloop
          · have hget := hih.victims victim hvictim
            rw [pop_loops] at hget
            split at hget
            · cases hget
            · exact hget
        · intro k
          have hk := hih.loops k
          rw [pop_loops] at hk
          rw [hk, List.map_cons]
          by_cases hck : k = candidate
          · simp [hck]
          · simp only [List.mem_cons, hck, false_or, if_false]
        · have hsum := hih.length
          simp only [List.length_cons]
          omega
        · exact hih.maxLoops

/-- The other sessions, the one used least recently first. -/
theorem keys_putLast (d : Dict LoopId) (session : String) (loop : LoopId) :
    (d.putLast (session, loop)).entries.map Prod.fst =
      (d.entries.map Prod.fst).filter (· ≠ session) ++ [session] := by
  unfold Table.putLast
  rw [List.map_append, Table.map_key_erase]
  rfl

theorem idle_keys_putLast (d : Dict LoopId) (session : String) (loop : LoopId) :
    ((d.putLast (session, loop)).entries.map Prod.fst).filter (Idle isBusy session) =
      (d.entries.map Prod.fst).filter (Idle isBusy session) := by
  rw [keys_putLast, List.filter_append, List.filter_filter]
  have hself : [session].filter (fun k => decide (Idle isBusy session k)) = [] := by simp [Idle]
  rw [hself, List.append_nil]
  refine List.filter_congr fun k _ => ?_
  by_cases hk : k = session <;> simp [Idle, hk]

theorem evicts_store (isBusy : String → Bool) (cache : LoopCache) (session : String)
    (loop : LoopId) (settings : LoopSettings) :
    Evicts isBusy session ((cache.loops.putLast (session, loop)).entries.map Prod.fst)
      { cache with
        loops := cache.loops.putLast (session, loop)
        settings := cache.settings.set session settings }
      (store isBusy cache session loop settings) := by
  refine evicts_evict (cache.loops.putLast (session, loop)).nodup fun k hk => ?_
  obtain ⟨⟨k, l⟩, hmem, rfl⟩ := List.mem_map.mp hk
  rw [Dict.get_eq_some_iff.mpr hmem]
  rfl

/-- **What a write evicts.** Of the other sessions that are idle the ones used least recently,
as many as there are too many, each with its loop; then the loops fit, unless every other
session that has one is busy. -/
theorem store_evicts (isBusy : String → Bool) (cache : LoopCache) (session : String)
    (loop : LoopId) (settings : LoopSettings) :
    (store isBusy cache session loop settings).2.map Prod.fst =
        ((cache.loops.entries.map Prod.fst).filter (Idle isBusy session)).take
          ((cache.loops.putLast (session, loop)).entries.length - cache.maxLoops) ∧
      (∀ victim ∈ (store isBusy cache session loop settings).2,
        cache.loops.get victim.1 = some victim.2) ∧
      (∀ k, (store isBusy cache session loop settings).1.loops.get k =
        if k = session then some loop
        else if k ∈ (store isBusy cache session loop settings).2.map Prod.fst then none
        else cache.loops.get k) ∧
      ((store isBusy cache session loop settings).1.loops.entries.length ≤ cache.maxLoops ∨
        ∀ k, k ≠ session →
          ((store isBusy cache session loop settings).1.loops.get k).isSome → isBusy k = true) := by
  have hevicts := evicts_store isBusy cache session loop settings
  have hkeys := hevicts.evicted
  rw [idle_keys_putLast] at hkeys
  dsimp only at hkeys
  have hidle : ∀ k ∈ (store isBusy cache session loop settings).2.map Prod.fst,
      Idle isBusy session k := by
    intro k hk
    rw [hkeys] at hk
    exact of_decide_eq_true (List.mem_filter.mp (List.mem_of_mem_take hk)).2
  have hloops : ∀ k, (store isBusy cache session loop settings).1.loops.get k =
      if k = session then some loop
      else if k ∈ (store isBusy cache session loop settings).2.map Prod.fst then none
      else cache.loops.get k := by
    intro k
    rw [hevicts.loops, get_loops_putLast]
    by_cases hk : k = session
    · subst hk
      rw [if_neg fun hmem => (hidle _ hmem).1 rfl, if_pos rfl, if_pos rfl]
    · rw [if_neg hk, if_neg hk]
  refine ⟨hkeys, fun victim hvictim => ?_, hloops, ?_⟩
  · have hget := hevicts.victims victim hvictim
    have hne := (hidle victim.1 (List.mem_map_of_mem hvictim)).1
    simpa [get_loops_putLast, hne] using hget
  · by_cases hfits : (store isBusy cache session loop settings).1.loops.entries.length ≤
        cache.maxLoops
    · exact Or.inl hfits
    · right
      intro k hk hsome
      have hsum := hevicts.length
      have hcount := congrArg List.length hkeys
      rw [List.length_map, List.length_take] at hcount
      dsimp only at hsum
      -- more are left than there should be, so all idle sessions are gone
      have hall : (store isBusy cache session loop settings).2.map Prod.fst =
          (cache.loops.entries.map Prod.fst).filter (Idle isBusy session) := by
        rw [hkeys, List.take_of_length_le (by omega)]
      rw [hloops, if_neg hk] at hsome
      split at hsome
      · cases hsome
      · next hmem =>
        obtain ⟨l, hl⟩ := Option.isSome_iff_exists.mp hsome
        have hin := List.mem_map_of_mem (f := Prod.fst) (Dict.get_eq_some_iff.mp hl)
        by_contra hbusy
        refine hmem ?_
        rw [hall]
        exact List.mem_filter.mpr ⟨hin, decide_eq_true ⟨hk, Bool.eq_false_iff.mpr hbusy⟩⟩

end LoopCache

end NeuralHub.WebSocket
