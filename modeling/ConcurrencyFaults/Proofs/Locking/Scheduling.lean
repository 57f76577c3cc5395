import ConcurrencyFaults.Proofs.Locking.Outcomes

/-!
# What a removal is asked for

Before anything is removed, the requests are gathered in a list of calls and a list of pairs.  This
changes notes alone and is never refused.  However requests repeat each other or share calls, the
lists hold exactly the calls and the pairs that were asked for, each once (`RemovalList.Covers`),
and there is one warning for each request that names no pair or shares a call with an earlier one
(`requestWarnings`).

## Strategy

The loop over the requests keeps `Covers` for the requests that were seen so far.  A request that
names no pair leaves the lists (`Covers.skip`); one that does adds what is not listed yet
(`Covers.add`).  Calls are compared by their handles, and so are pairs; `Covers` therefore says of
each side that its handle is listed, and of each listed call that it is a side.
-/

namespace ConcurrencyFaults

namespace LockOperator

variable {index : PairIndex} {addressing : PairAddressing} {address : PairAddress}
  {addresses : List PairAddress} {removals : RemovalList} {pair : LockPair} {site : CallSite}
  {workspace : Workspace}

/-! ## Warnings

What a request is warned of depends on the addresses before it, not on the lists. -/

/-- The warning about a request that shares calls with earlier ones. -/
def sharedWarning (address : PairAddress) (shared : Nat) : Entry :=
  .warning (s!"{name}: position pair " ++ address.text ++
    s!" shares {shared} call(s) with an earlier request, removing them once")

/-- How many calls of a pair belong to earlier pairs as well. -/
def sharedSides (earlier : List LockPair) (pair : LockPair) : Nat :=
  [pair.lock, pair.unlock].countP fun side =>
    (sidesOf earlier).any fun other => other.handle == side.handle

/-- The warning about a request that comes after requests for some pairs: it names no pair, or one
that shares a call with them. -/
def requestWarning? (index : PairIndex) (addressing : PairAddressing) (earlier : List LockPair)
    (address : PairAddress) : Option Entry :=
  match find? index addressing address with
  | none => some (boundsWarning address)
  | some pair =>
      if sharedSides earlier pair > 0 then some (sharedWarning address (sharedSides earlier pair))
      else none

/-- The pairs that some addresses name. -/
def pairsAt (index : PairIndex) (addressing : PairAddressing) (addresses : List PairAddress) :
    List LockPair :=
  addresses.filterMap (find? index addressing)

/-- The warnings about requests that come after others, in their order. -/
def requestWarnings (index : PairIndex) (addressing : PairAddressing) :
    List PairAddress → List PairAddress → List Entry
  | _, [] => []
  | earlier, address :: rest =>
      (requestWarning? index addressing (pairsAt index addressing earlier) address).toList ++
        requestWarnings index addressing (earlier ++ [address]) rest

/-! ## The lists

Membership in the lists after one more request comes first, then that they still cover. -/

namespace RemovalList

/-- The lists hold what was asked for, each once. -/
structure Covers (removals : RemovalList) (index : PairIndex) (addressing : PairAddressing)
    (addresses : List PairAddress) : Prop where
  sites_nodup : (removals.sites.map fun listed => listed.1.handle).Nodup
  mem_sites : ∀ listed ∈ removals.sites, ∃ pair ∈ pairsAt index addressing addresses,
    listed = (pair.lock, pair.family) ∨ listed = (pair.unlock, pair.family)
  lists_sides : ∀ side ∈ sidesOf (pairsAt index addressing addresses), removals.lists side = true
  pairs_nodup : (removals.pairs.map Prod.snd).Nodup
  mem_pairs : ∀ requested ∈ removals.pairs,
    requested.1 ∈ addresses ∧ find? index addressing requested.1 = some requested.2
  lists_pairs : ∀ pair ∈ pairsAt index addressing addresses, removals.listsPair pair = true

theorem covers_nil : Covers {} index addressing [] where
  sites_nodup := List.nodup_nil
  mem_sites := by simp
  lists_sides := by simp [pairsAt, sidesOf]
  pairs_nodup := List.nodup_nil
  mem_pairs := by simp
  lists_pairs := by simp [pairsAt]

theorem lists_iff : removals.lists site = true ↔
    site.handle ∈ removals.sites.map fun listed => listed.1.handle := by
  simp [lists]

theorem mem_newSides : site ∈ removals.newSides pair ↔
    (site = pair.lock ∨ site = pair.unlock) ∧ removals.lists site = false := by
  simp [newSides]

/-- A request lists the two calls of its pair besides what was listed. -/
theorem lists_add : (removals.add address pair).lists site = true ↔
    removals.lists site = true ∨ site.handle = pair.lock.handle ∨
      site.handle = pair.unlock.handle := by
  rw [lists_iff, lists_iff, add, List.map_append, List.mem_append, List.map_map]
  constructor
  · rintro (hold | hnew)
    · exact Or.inl hold
    · obtain ⟨side, hside, hsame⟩ := List.mem_map.mp hnew
      rcases (mem_newSides.mp hside).1 with rfl | rfl
      · exact Or.inr (Or.inl hsame.symm)
      · exact Or.inr (Or.inr hsame.symm)
  · rintro (hold | hnew)
    · exact Or.inl hold
    · obtain ⟨side, hside, hsame⟩ : ∃ side, (side = pair.lock ∨ side = pair.unlock) ∧
          site.handle = side.handle := by
        rcases hnew with hlock | hunlock
        · exact ⟨pair.lock, Or.inl rfl, hlock⟩
        · exact ⟨pair.unlock, Or.inr rfl, hunlock⟩
      -- a call that is not new was listed under its handle before
      cases hlisted : removals.lists side with
      | true =>
          rw [lists_iff, ← hsame] at hlisted
          exact Or.inl hlisted
      | false =>
          have hmem := mem_newSides.mpr ⟨hside, hlisted⟩
          exact Or.inr (List.mem_map.mpr ⟨side, hmem, hsame.symm⟩)

theorem listsPair_iff : removals.listsPair pair = true ↔ ∃ requested ∈ removals.pairs,
    requested.2.lock.handle = pair.lock.handle ∧
      requested.2.unlock.handle = pair.unlock.handle := by
  simp [listsPair]

theorem pairs_add : (removals.add address pair).pairs =
    if removals.listsPair pair then removals.pairs else removals.pairs ++ [(address, pair)] := rfl

/-- A request lists its pair, unless a pair of the same calls is listed. -/
theorem listsPair_add {other : LockPair} (hother : removals.listsPair other = true ∨ pair = other) :
    (removals.add address pair).listsPair other = true := by
  rw [listsPair_iff, pairs_add]
  split
  · rename_i hlisted
    rcases hother with hold | rfl
    · exact listsPair_iff.mp hold
    · exact listsPair_iff.mp hlisted
  · rcases hother with hold | rfl
    · obtain ⟨requested, hmem, hsame⟩ := listsPair_iff.mp hold
      exact ⟨requested, List.mem_append_left _ hmem, hsame⟩
    · exact ⟨(address, pair), List.mem_append_right _ (List.mem_singleton_self _), rfl, rfl⟩

end RemovalList

theorem pairsAt_concat_of_some (hfind : find? index addressing address = some pair)
    (addresses : List PairAddress) :
    pairsAt index addressing (addresses ++ [address]) =
      pairsAt index addressing addresses ++ [pair] := by
  simp [pairsAt, List.filterMap_append, hfind]

theorem pairsAt_concat_of_none (hfind : find? index addressing address = none)
    (addresses : List PairAddress) :
    pairsAt index addressing (addresses ++ [address]) = pairsAt index addressing addresses := by
  simp [pairsAt, List.filterMap_append, hfind]

namespace RemovalList.Covers

variable (covers : removals.Covers index addressing addresses)
include covers

/-- The calls that are listed are the sides of the pairs. -/
theorem lists_iff_shared (site : CallSite) : removals.lists site =
    (sidesOf (pairsAt index addressing addresses)).any fun other =>
      other.handle == site.handle := by
  rw [Bool.eq_iff_iff, List.any_eq_true]
  constructor
  · intro hlisted
    obtain ⟨listed, hmem, hsame⟩ := List.mem_map.mp (lists_iff.mp hlisted)
    obtain ⟨pair, hpair, hside⟩ := covers.mem_sites listed hmem
    refine ⟨listed.1, mem_sidesOf_iff.mpr ⟨pair, hpair, ?_⟩, beq_iff_eq.mpr hsame⟩
    rcases hside with rfl | rfl
    · exact Or.inl rfl
    · exact Or.inr rfl
  · rintro ⟨side, hside, hsame⟩
    have hlisted := lists_iff.mp (covers.lists_sides side hside)
    rw [beq_iff_eq.mp hsame] at hlisted
    exact lists_iff.mpr hlisted

/-- What is not new is shared. -/
theorem length_newSides (pair : LockPair) :
    2 - (removals.newSides pair).length =
      sharedSides (pairsAt index addressing addresses) pair := by
  unfold RemovalList.newSides sharedSides
  simp only [← covers.lists_iff_shared]
  rw [← List.countP_eq_length_filter]
  cases hlock : removals.lists pair.lock <;> cases hunlock : removals.lists pair.unlock <;>
    simp [hlock, hunlock]

/-- What a request adds was not listed before. -/
theorem sites_nodup_add (address : PairAddress) (hsides : pair.unlock.handle ≠ pair.lock.handle) :
    ((removals.add address pair).sites.map fun listed => listed.1.handle).Nodup := by
  rw [RemovalList.add, List.map_append, List.map_map]
  refine List.nodup_append'.mpr ⟨covers.sites_nodup, ?_, ?_⟩
  · have hboth : ([pair.lock, pair.unlock].map CallSite.handle).Nodup := by simp [hsides.symm]
    exact hboth.sublist (List.filter_sublist.map _)
  · intro handle hold hnew
    obtain ⟨side, hside, rfl⟩ := List.mem_map.mp hnew
    have hlisted := lists_iff.mpr hold
    rw [(mem_newSides.mp hside).2] at hlisted
    cases hlisted

theorem pairs_nodup_add (address : PairAddress) (pair : LockPair) :
    ((removals.add address pair).pairs.map Prod.snd).Nodup := by
  rw [pairs_add]
  split
  · exact covers.pairs_nodup
  · rename_i hnew
    rw [List.map_append, List.nodup_append']
    refine ⟨covers.pairs_nodup, List.nodup_singleton _, fun other hold hsame => ?_⟩
    obtain ⟨requested, hmem, rfl⟩ := List.mem_map.mp hold
    -- a pair that is among the pairs would have been found under its handles
    refine hnew (listsPair_iff.mpr ⟨requested, hmem, ?_⟩)
    rw [List.mem_singleton.mp hsame]
    exact ⟨rfl, rfl⟩

theorem mem_pairs_add (hfind : find? index addressing address = some pair) :
    ∀ requested ∈ (removals.add address pair).pairs, requested.1 ∈ addresses ++ [address] ∧
      find? index addressing requested.1 = some requested.2 := by
  have hold : ∀ requested ∈ removals.pairs, requested.1 ∈ addresses ++ [address] ∧
      find? index addressing requested.1 = some requested.2 := fun requested hmem =>
    ⟨List.mem_append_left _ (covers.mem_pairs requested hmem).1,
      (covers.mem_pairs requested hmem).2⟩
  intro requested hmem
  rw [pairs_add] at hmem
  split at hmem
  · exact hold requested hmem
  · rcases List.mem_append.mp hmem with hmem | hnew
    · exact hold requested hmem
    · rw [List.mem_singleton.mp hnew]
      exact ⟨List.mem_append_right _ (List.mem_singleton_self _), hfind⟩

theorem add (hfind : find? index addressing address = some pair)
    (hsides : pair.unlock.handle ≠ pair.lock.handle) :
    (removals.add address pair).Covers index addressing (addresses ++ [address]) := by
  have hpairs := pairsAt_concat_of_some hfind addresses
  refine ⟨covers.sites_nodup_add address hsides, ?_, ?_, covers.pairs_nodup_add address pair,
    covers.mem_pairs_add hfind, ?_⟩
  · intro listed hmem
    rw [hpairs]
    rcases List.mem_append.mp hmem with hold | hnew
    · obtain ⟨found, hfound, hside⟩ := covers.mem_sites listed hold
      exact ⟨found, List.mem_append_left _ hfound, hside⟩
    · obtain ⟨side, hside, rfl⟩ := List.mem_map.mp hnew
      refine ⟨pair, List.mem_append_right _ (List.mem_singleton_self _), ?_⟩
      rcases (mem_newSides.mp hside).1 with rfl | rfl
      · exact Or.inl rfl
      · exact Or.inr rfl
  · intro side hside
    rw [hpairs] at hside
    obtain ⟨found, hfound, hrole⟩ := mem_sidesOf_iff.mp hside
    rw [lists_add]
    rcases List.mem_append.mp hfound with hfound | hfound
    · exact Or.inl (covers.lists_sides side (mem_sidesOf_iff.mpr ⟨found, hfound, hrole⟩))
    · obtain rfl := List.mem_singleton.mp hfound
      exact Or.inr (hrole.imp (congrArg _) (congrArg _))
  · intro other hother
    rw [hpairs] at hother
    refine listsPair_add ?_
    rcases List.mem_append.mp hother with hother | hother
    · exact Or.inl (covers.lists_pairs other hother)
    · exact Or.inr (List.mem_singleton.mp hother).symm

theorem skip (hfind : find? index addressing address = none) :
    removals.Covers index addressing (addresses ++ [address]) := by
  have hpairs := pairsAt_concat_of_none hfind addresses
  refine ⟨covers.sites_nodup, ?_, ?_, covers.pairs_nodup, ?_, ?_⟩
  · exact hpairs ▸ covers.mem_sites
  · exact hpairs ▸ covers.lists_sides
  · exact fun requested hmem => ⟨List.mem_append_left _ (covers.mem_pairs requested hmem).1,
      (covers.mem_pairs requested hmem).2⟩
  · exact hpairs ▸ covers.lists_pairs

/-- One more request adds what it asks for, and leaves its warning. -/
theorem schedule (hsides : ∀ pair ∈ find? index addressing address,
      pair.unlock.handle ≠ pair.lock.handle) :
    ∃ scheduled, schedule index addressing removals address workspace = .ok scheduled
        { workspace with ledger := workspace.ledger.recordAll (requestWarning? index addressing
          (pairsAt index addressing addresses) address).toList } ∧
      scheduled.Covers index addressing (addresses ++ [address]) := by
  unfold LockOperator.schedule requestWarning?
  cases hfind : find? index addressing address with
  | none =>
      refine ⟨removals, ?_, covers.skip hfind⟩
      rw [bind_apply_of_ok (resolve_of_find?_eq_none hfind)]
      rfl
  | some pair =>
      refine ⟨removals.add address pair, ?_, covers.add hfind (hsides pair hfind)⟩
      rw [bind_apply_of_ok (resolve_of_find? hfind)]
      dsimp only
      rw [covers.length_newSides pair]
      split
      · rfl
      · rw [Option.toList_none, Ledger.recordAll_nil]
        rfl

end RemovalList.Covers

/-- All requests are gathered before anything is removed. -/
theorem schedule_all (covers : removals.Covers index addressing addresses)
    (hsides : ∀ address pair, find? index addressing address = some pair →
      pair.unlock.handle ≠ pair.lock.handle) (later : List PairAddress) :
    ∃ scheduled, later.foldlM (schedule index addressing) removals workspace = .ok scheduled
        { workspace with ledger :=
          workspace.ledger.recordAll (requestWarnings index addressing addresses later) } ∧
      scheduled.Covers index addressing (addresses ++ later) := by
  induction later generalizing removals addresses workspace with
  | nil =>
      rw [requestWarnings, Ledger.recordAll_nil, List.append_nil]
      exact ⟨removals, rfl, covers⟩
  | cons address rest ih =>
      obtain ⟨scheduled, hfirst, hcovers⟩ :=
        @RemovalList.Covers.schedule index addressing address addresses removals workspace covers
          (hsides address)
      obtain ⟨last, hrest, hlast⟩ := @ih _ _ { workspace with ledger := _ } hcovers
      refine ⟨last, ?_, by rwa [List.append_assoc] at hlast⟩
      rw [List.foldlM_cons, bind_apply_of_ok hfirst, hrest, Ledger.recordAll_recordAll]
      rfl

end LockOperator

end ConcurrencyFaults
