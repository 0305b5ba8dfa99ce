import BaremetalDhcp.HashTableRefinement
import BaremetalDhcp.Lib.LittleEndian

/-!
# The table of transaction numbers

`bench-live/xid-tab.c` finds the client that a reply belongs to.  The table is the one of
`ds-lib`; its elements are pointers to clients, and the hash and comparison functions look at
the transaction number behind the pointer.  A lookup or a removal passes a pointer to a dummy on
its own stack.

* `ClientPtr`, `xidKeys` — the pointers, and the two functions of the table.
* `HoldsXids` — the table holds a list of clients, the one that was inserted last first.

`xid_tab_refines_map` says that what a lookup returns is the client inserted last under the
number, or null.  A dummy never gets into the table, so that no pointer into a stack frame
outlives the call.
-/

namespace BaremetalDhcp

open Machine LittleEndian

/-- A `struct client_async *`: null, as in a bucket that was cleared, or to one of the clients,
or to the dummy with the given transaction number. -/
inductive ClientPtr (ι : Type) where
  | null
  | client (i : ι)
  | dummy (xid : UInt32)

instance zeroClientPtr (ι : Type) : Zero (ClientPtr ι) := ⟨.null⟩

/-- `HASH_N` of the benchmark. -/
def benchHashN : ℕ := 4096

instance benchHashN_neZero : NeZero benchHashN := inferInstanceAs (NeZero 4096)

section Table

variable {ι : Type} (xid : ι → UInt32)

/-- `c.xid` behind the pointer. -/
def ClientPtr.xidOf : ClientPtr ι → Option UInt32
  | .null => none
  | .client i => some (xid i)
  | .dummy x => some x

/-- `fnv1a`. -/
def fnv1a (data : List UInt8) : UInt32 :=
  data.foldl (fun hash p => (hash ^^^ p.toUInt32) * 16777619) 2166136261 % UInt32.ofNat benchHashN

/-- `generic_hash` and `generic_comp`.  Both read through the pointer; they are not called on
null. -/
def xidKeys : KeyOps (ClientPtr ι) where
  hash e := ((e.xidOf xid).map fun x => fnv1a (bytes32 x)).getD 0
  comp a b := if a.xidOf xid ≠ b.xidOf xid then 1 else 0

/-- `xid_tab`. -/
abbrev XidTab (ι : Type) := HashTab benchHashN (ClientPtr ι)

/-- `xid_tab_init`. -/
def xidTabInit (prior : XidTab ι) : XidTab ι := hashInit prior

/-- `xid_tab_insert`, which does not look at the status. -/
def xidTabInsert (tab : XidTab ι) (cAsync : ι) : XidTab ι :=
  (hashInsert (xidKeys xid) tab (.client cAsync)).1

/-- `xid_tab_lookup`. -/
def xidTabLookup (tab : XidTab ι) (x : UInt32) : ClientPtr ι :=
  match hashFind (xidKeys xid) tab (.dummy x) with
  | some i => tab.buckets i
  | none => .null

/-- `xid_tab_remove`. -/
def xidTabRemove (tab : XidTab ι) (x : UInt32) : XidTab ι :=
  (hashDelete (xidKeys xid) tab (.dummy x)).1

/-! ## What the table holds -/

variable {xid}

theorem xidKeys_comp_eq_zero_iff {a b : ClientPtr ι} :
    (xidKeys xid).comp a b = 0 ↔ a.xidOf xid = b.xidOf xid := by
  unfold xidKeys
  dsimp only
  split_ifs with hne
  · exact iff_of_false one_ne_zero hne
  · exact iff_of_true rfl (not_not.mp hne)

theorem xidKeys_lawful : (xidKeys xid).Lawful where
  refl _ := xidKeys_comp_eq_zero_iff.mpr rfl
  symm h := xidKeys_comp_eq_zero_iff.mpr (xidKeys_comp_eq_zero_iff.mp h).symm
  trans h h' := xidKeys_comp_eq_zero_iff.mpr
    ((xidKeys_comp_eq_zero_iff.mp h).trans (xidKeys_comp_eq_zero_iff.mp h'))
  hash_eq h := by simp only [xidKeys, xidKeys_comp_eq_zero_iff.mp h]

variable (xid)

/-- The clients without those that have the number. -/
def dropXid (x : UInt32) (clients : List ι) : List ι := clients.filter fun i => xid i ≠ x

/-- The table holds the clients. -/
def HoldsXids (tab : XidTab ι) (clients : List ι) : Prop :=
  Represents (xidKeys xid) tab (clients.map ClientPtr.client)

variable {xid} {tab : XidTab ι} {clients : List ι} {i : ι}

theorem mem_dropXid {x : UInt32} : i ∈ dropXid xid x clients ↔ i ∈ clients ∧ xid i ≠ x := by
  rw [dropXid, List.mem_filter, decide_eq_true_iff]

/-- A pointer with the number, among clients. -/
theorem sameKey_client {e : ClientPtr ι} {x : UInt32} (he : e.xidOf xid = some x) :
    (sameKey (xidKeys xid) e) ∘ ClientPtr.client = fun i => decide (xid i = x) := by
  funext i
  have hcomp : (xidKeys xid).comp (.client i) e = 0 ↔ xid i = x := by
    rw [xidKeys_comp_eq_zero_iff, he]
    exact Option.some_inj
  exact decide_eq_decide.mpr hcomp

/-- Dropping the key of a pointer drops the clients that have its number. -/
theorem dropKey_map_client {e : ClientPtr ι} {x : UInt32} (he : e.xidOf xid = some x) :
    dropKey (xidKeys xid) e (clients.map ClientPtr.client) =
      (dropXid xid x clients).map ClientPtr.client := by
  rw [dropKey, List.filter_map, dropXid]
  congr 2
  funext i
  have hsame := congrFun (sameKey_client he) i
  simp only [Function.comp_apply] at hsame ⊢
  rw [hsame]
  exact (decide_not).symm

theorem HoldsXids.insert (h : HoldsXids xid tab clients) (i : ι) :
    HoldsXids xid (xidTabInsert xid tab i)
      (if clients.length = benchHashN then clients else i :: dropXid xid (xid i) clients) := by
  have hstep := (Represents.step xidKeys_lawful h (.insert (.client i))).2
  unfold HoldsXids xidTabInsert
  simp only [tableStep, mapStep, List.length_map] at hstep
  split_ifs at hstep ⊢ with hfull
  · exact hstep
  · rw [dropKey_map_client rfl] at hstep
    exact hstep

theorem HoldsXids.remove (h : HoldsXids xid tab clients) (x : UInt32) :
    HoldsXids xid (xidTabRemove xid tab x) (dropXid xid x clients) := by
  have hstep := (Represents.step xidKeys_lawful h (.delete (.dummy x))).2
  unfold HoldsXids xidTabRemove
  rw [← dropKey_map_client (e := .dummy x) rfl]
  simp only [tableStep, mapStep] at hstep
  split_ifs at hstep with hany
  · exact hstep
  · -- the number is not in the table
    rw [dropKey_of_absent]
    · exact hstep
    · intro p hp hcomp
      exact hany (List.any_eq_true.mpr ⟨p, hp, by simpa [sameKey] using hcomp⟩)

/-- A lookup returns the client with the number. -/
theorem HoldsXids.lookup (h : HoldsXids xid tab clients) (x : UInt32) :
    xidTabLookup xid tab x =
      match clients.find? fun i => xid i = x with
      | some i => .client i
      | none => .null := by
  have hfind := Represents.find xidKeys_lawful h (.dummy x)
  rw [List.find?_map, sameKey_client rfl] at hfind
  unfold xidTabLookup
  cases hslot : hashFind (xidKeys xid) tab (.dummy x) with
  | none =>
      rw [hslot, Option.map_none] at hfind
      rw [Option.map_eq_none_iff.mp hfind.symm]
  | some slot =>
      rw [hslot, Option.map_some] at hfind
      obtain ⟨i, hi, hbucket⟩ := Option.map_eq_some_iff.mp hfind.symm
      rw [hi]
      exact hbucket.symm

/-- No two clients in the table have the same number. -/
theorem HoldsXids.pairwise (h : HoldsXids xid tab clients) :
    clients.Pairwise fun i j => xid i ≠ xid j := by
  have hdistinct := h.distinct
  unfold DistinctKeys at hdistinct
  rw [List.pairwise_map] at hdistinct
  refine hdistinct.imp fun hcomp hsame => hcomp ?_
  exact xidKeys_comp_eq_zero_iff.mpr (congrArg some hsame)

theorem HoldsXids.nodup (h : HoldsXids xid tab clients) : clients.Nodup :=
  h.pairwise.imp fun hne hsame => hne (congrArg xid hsame)

/-- A client in the table is found under its number. -/
theorem HoldsXids.lookup_of_mem (h : HoldsXids xid tab clients) (hi : i ∈ clients) :
    xidTabLookup xid tab (xid i) = .client i := by
  have hdistinct : (clients.map xid).Nodup := List.pairwise_map.mpr h.pairwise
  rw [h.lookup]
  cases hfind : clients.find? fun j => xid j = xid i with
  | none => exact absurd (decide_eq_true rfl) (List.find?_eq_none.mp hfind i hi)
  | some j =>
      have hsame := List.find?_some hfind
      have hj := List.mem_of_find?_eq_some hfind
      exact congrArg ClientPtr.client (List.inj_on_of_nodup_map hdistinct hj hi
        (of_decide_eq_true hsame))

theorem xidTabInit_holds (prior : XidTab ι) : HoldsXids xid (xidTabInit prior) [] :=
  ⟨hashClear_wf _ prior, fun p => by simp [xidTabInit, hashInit, not_stored_hashClear],
    List.Pairwise.nil, rfl⟩

end Table

/-! ## A whole run -/

/-- A call of the table. -/
inductive XidCall (ι : Type) where
  | insert (i : ι)
  | lookup (x : UInt32)
  | remove (x : UInt32)

section Runs

variable {ι : Type} (xid : ι → UInt32)

/-- One call, and what a lookup returns. -/
def xidTabStep (tab : XidTab ι) : XidCall ι → XidTab ι × Option (ClientPtr ι)
  | .insert i => (xidTabInsert xid tab i, none)
  | .lookup x => (tab, some (xidTabLookup xid tab x))
  | .remove x => (xidTabRemove xid tab x, none)

/-- What the table is for: the clients by their numbers, as far as there is room. -/
def xidMapStep (clients : List ι) : XidCall ι → List ι × Option (ClientPtr ι)
  | .insert i =>
      (if clients.length = benchHashN then clients else i :: dropXid xid (xid i) clients, none)
  | .lookup x =>
      (clients, some (match clients.find? fun i => xid i = x with
        | some i => .client i
        | none => .null))
  | .remove x => (dropXid xid x clients, none)

/-- **The table finds the client inserted last.**  Whatever the calls after `xid_tab_init`, a
lookup returns the client that was inserted last under the number and not removed since, or
null if there is none; a table with 4096 entries refuses every insertion, also of a number that
it holds. -/
theorem xid_tab_refines_map (prior : XidTab ι) (calls : List (XidCall ι)) :
    outputs (xidTabStep xid) (xidTabInit prior) calls = outputs (xidMapStep xid) [] calls ∧
      HoldsXids xid (exec (xidTabStep xid) (xidTabInit prior) calls)
        (exec (xidMapStep xid) [] calls) := by
  have hstep : ∀ (tab : XidTab ι) (clients : List ι) (call : XidCall ι),
      HoldsXids xid tab clients → True →
        (xidTabStep xid tab call).2 = (xidMapStep xid clients call).2 ∧
          HoldsXids xid (xidTabStep xid tab call).1 (xidMapStep xid clients call).1 := by
    intro tab clients call h _
    cases call with
    | insert i => exact ⟨rfl, h.insert i⟩
    | lookup x => exact ⟨congrArg some (h.lookup x), h⟩
    | remove x => exact ⟨rfl, h.remove x⟩
  exact simulation hstep calls (xidTabInit prior) [] (xidTabInit_holds prior)
    (along_of_forall (fun _ _ => trivial) calls (xidTabInit prior))

end Runs

end BaremetalDhcp
