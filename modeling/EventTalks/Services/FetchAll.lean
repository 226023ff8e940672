import EventTalks.Realm.WriteTransaction
import EventTalks.Network.Request

/-! # Fetching all talks

The success branch of `TalksFetcher.fetchAll` writes every talk of the response
and deletes every stored talk that is not among them. The store it commits holds,
under each identifier of the response, the last talk of the response with that
identifier, and nothing else (`EventTalks.TalksFetcher.get?_fetchAllSuccess`).
-/

namespace EventTalks.TalksFetcher

open Foundation Realm

/-- The objects built from a response, one new object for each element. -/
def talksToUpdate (initials : Nat → Talk.Initial) (talks : List Network.Response.Talk) :
    List Talk :=
  talks.mapIdx fun index talk => Talk.fromShared (initials index) talk

/-- The rows that the success branch of `fetchAll` commits. -/
def fetchAllRows (initials : Nat → Talk.Initial) (rows : List Talk)
    (talks : List Network.Response.Talk) : List Talk :=
  (WriteTransaction.add rows (talksToUpdate initials talks)).deleteMissing.rows

/-- The objects of the response pin exactly the rows with their identifiers. -/
theorem mem_pinnedRows_add (store : TalkStore) (objects : List Talk) {row : Talk}
    (member : row ∈ (objects.foldl KeyedTable.upsert store).rows) :
    some row ∈ (WriteTransaction.add store.rows objects).enumerate.toSweep.pinnedRows ↔
      row.identifier ∈ objects.map Talk.identifier := by
  have pinned : (WriteTransaction.add store.rows objects).enumerate.toSweep.pinnedRows =
      (addAll store.rows objects).2.map
        fun position => (addAll store.rows objects).1[position]? := by
    simp [WriteTransaction.add, WriteTransaction.enumerate, WriteTransaction.toSweep,
      Sweep.pinnedRows, Function.comp_def]
  have located := addAll_snd store.rows objects
  rw [pinned, addAll_fst] at *
  have named : ∀ identifier, identifier ∈ objects.map Talk.identifier ↔
      ∃ position ∈ (addAll store.rows objects).2,
        ((objects.foldl KeyedTable.upsert store).rows.map Talk.identifier)[position]? =
          some identifier := by
    intro identifier
    have image : identifier ∈ objects.map Talk.identifier ↔
        some identifier ∈ objects.map fun object => some object.identifier := by simp
    rw [image, ← located, List.mem_map]
  rw [named, List.mem_map]
  constructor
  · intro pinned
    rcases pinned with ⟨position, listed, reads⟩
    exact ⟨position, listed, by rw [List.getElem?_map, reads]; rfl⟩
  · intro pinned
    rcases pinned with ⟨position, listed, reads⟩
    rw [List.getElem?_map, Option.map_eq_some_iff] at reads
    obtain ⟨other, read, same⟩ := reads
    refine ⟨position, listed, ?_⟩
    rw [read, List.inj_on_of_nodup_map (objects.foldl KeyedTable.upsert store).unique
      (List.mem_of_getElem? read) member same]

/-- **What the deletion loop leaves**: the upserted rows whose identifier occurs in
the response. -/
theorem fetchAllRows_perm (initials : Nat → Talk.Initial) (store : TalkStore)
    (talks : List Network.Response.Talk) :
    (fetchAllRows initials store.rows talks).Perm
      ((((talksToUpdate initials talks).foldl KeyedTable.upsert store).rows).filter fun row =>
        row.identifier ∈ (talksToUpdate initials talks).map Talk.identifier) := by
  let objects := talksToUpdate initials talks
  let transaction := WriteTransaction.add store.rows objects
  have promoted : transaction.Promoted := by
    intro object member
    obtain ⟨position, _, rfl⟩ := List.mem_map.mp member
    rfl
  have rows : transaction.enumerate.toSweep.rows = (objects.foldl KeyedTable.upsert store).rows :=
    addAll_fst store objects
  have distinct : transaction.enumerate.toSweep.rows.Nodup := by
    rw [rows]
    exact (objects.foldl KeyedTable.upsert store).unique.of_map
  have swept := (transaction.enumerate.toSweep.run_rows distinct rfl).1
  rw [← promoted.deleteMissing_toSweep, rows] at swept
  refine swept.trans (List.Perm.of_eq (List.filter_congr fun row member => ?_))
  exact decide_eq_decide.mpr (mem_pinnedRows_add store objects member)

/-- The store after the success branch of `fetchAll` has committed. -/
def fetchAllSuccess (initials : Nat → Talk.Initial) (store : TalkStore)
    (talks : List Network.Response.Talk) : TalkStore where
  rows := fetchAllRows initials store.rows talks
  unique := by
    have kept := (fetchAllRows_perm initials store talks).map Talk.identifier
    refine kept.nodup_iff.mpr (List.Nodup.sublist (List.filter_sublist.map _) ?_)
    exact ((talksToUpdate initials talks).foldl KeyedTable.upsert store).unique

/-- **Fetching mirrors the response**: under every identifier the committed store
holds the last object built from the response that has it, and nothing when there
is none. -/
theorem get?_fetchAllSuccess (initials : Nat → Talk.Initial) (store : TalkStore)
    (talks : List Network.Response.Talk) (identifier : String) :
    (fetchAllSuccess initials store talks).get? identifier =
      (talksToUpdate initials talks).reverse.find? fun talk => talk.identifier = identifier := by
  rw [KeyedTable.get?_of_perm_filter (fetchAllRows_perm initials store talks),
    KeyedTable.get?_foldl_upsert]
  split
  · rename_i listed
    obtain ⟨talk, member, same⟩ := List.mem_map.mp listed
    rw [Option.or_of_isSome]
    exact List.find?_isSome.mpr ⟨talk, List.mem_reverse.mpr member, by simpa using same⟩
  · rename_i unlisted
    symm
    rw [List.find?_eq_none]
    intro talk member
    have inside := List.mem_reverse.mp member
    simp only [decide_eq_true_eq]
    exact fun same => unlisted (List.mem_map.mpr ⟨talk, inside, same⟩)

theorem mem_keys_fetchAllSuccess (initials : Nat → Talk.Initial) (store : TalkStore)
    (talks : List Network.Response.Talk) (identifier : String) :
    identifier ∈ (fetchAllSuccess initials store talks).keys ↔
      identifier ∈ (talksToUpdate initials talks).map Talk.identifier := by
  rw [← not_iff_not, ← KeyedTable.get?_eq_none, get?_fetchAllSuccess, List.find?_eq_none]
  simp

/-- When every talk of the response has an identifier, these are the stored ones. -/
theorem mem_keys_fetchAllSuccess_of_identified (initials : Nat → Talk.Initial) (store : TalkStore)
    {talks : List Network.Response.Talk} (identified : ∀ talk ∈ talks, talk.id.isSome)
    (identifier : String) :
    identifier ∈ (fetchAllSuccess initials store talks).keys ↔
      ∃ talk ∈ talks, talk.id = some identifier := by
  rw [mem_keys_fetchAllSuccess, List.mem_map]
  constructor
  · intro stored
    rcases stored with ⟨object, member, rfl⟩
    obtain ⟨index, inside, rfl⟩ := List.mem_mapIdx.mp member
    obtain ⟨name, named⟩ := Option.isSome_iff_exists.mp (identified _ (List.getElem_mem inside))
    exact ⟨_, List.getElem_mem inside, by simp [named]⟩
  · intro shared
    rcases shared with ⟨talk, member, named⟩
    obtain ⟨index, inside, rfl⟩ := List.getElem_of_mem member
    exact ⟨_, List.mem_mapIdx.mpr ⟨index, inside, rfl⟩, by simp [named]⟩

/-- Searching a list from its end finds an element that no later one matches. -/
theorem find?_reverse_of_last {α : Type*} {items : List α} {matching : α → Bool} (index : Nat)
    {item : α} (located : items[index]? = some item) (matches_ : matching item = true)
    (last : ∀ later other, index < later → items[later]? = some other → matching other = false) :
    items.reverse.find? matching = some item := by
  obtain ⟨inside, rfl⟩ := List.getElem?_eq_some_iff.mp located
  have beyond : (items.drop (index + 1)).reverse.find? matching = none := by
    rw [List.find?_eq_none]
    intro other member
    obtain ⟨offset, reads⟩ := List.mem_iff_getElem?.mp (List.mem_reverse.mp member)
    rw [List.getElem?_drop] at reads
    simp [last _ other (by omega) reads]
  conv_lhs => rw [← List.take_append_drop (index + 1) items]
  rw [List.reverse_append, List.find?_append, beyond, Option.none_or,
    List.take_succ_eq_append_getElem inside, List.reverse_append, List.find?_append]
  simp [matches_]

/-- **`fetchAll` mirrors the response.** After the success branch has committed, the
store holds one talk for each identifier of the response and no other, and that
talk is the one built from the last element of the response with the identifier. -/
theorem fetchAll_mirrors (initials : Nat → Talk.Initial) (store : TalkStore)
    (talks : List Network.Response.Talk) (identified : ∀ talk ∈ talks, talk.id.isSome) :
    (fetchAllSuccess initials store talks).keys.Nodup ∧
      (∀ identifier, identifier ∈ (fetchAllSuccess initials store talks).keys ↔
        ∃ talk ∈ talks, talk.id = some identifier) ∧
      ∀ index talk identifier, talks[index]? = some talk → talk.id = some identifier →
        (∀ later other, index < later → talks[later]? = some other →
          other.id ≠ some identifier) →
        (fetchAllSuccess initials store talks).get? identifier =
          some (Talk.fromShared (initials index) talk) := by
  refine ⟨(fetchAllSuccess initials store talks).unique,
    mem_keys_fetchAllSuccess_of_identified initials store identified, ?_⟩
  intro index talk identifier located named last
  rw [get?_fetchAllSuccess]
  apply find?_reverse_of_last index
  · rw [talksToUpdate, List.getElem?_mapIdx, located]
    rfl
  · simp [named]
  · intro later other beyond reads
    rw [talksToUpdate, List.getElem?_mapIdx, Option.map_eq_some_iff] at reads
    obtain ⟨shared, shareds, rfl⟩ := reads
    obtain ⟨name, sharedNamed⟩ :=
      Option.isSome_iff_exists.mp (identified shared (List.mem_of_getElem? shareds))
    have different := last later shared beyond shareds
    rw [sharedNamed] at different
    simpa [sharedNamed] using fun same => different (congrArg some same)

/-- Three stored talks meet a response that drops one, repeats one and brings a new
one; the repeated identifier keeps its last title. -/
theorem fetchAll_mirrors_repeated :
    let stored (identifier : String) : Talk :=
      { Talk.new default with identifier := identifier, speakerName := some "old" }
    let store : TalkStore := ⟨[stored "a", stored "b", stored "c"], by decide⟩
    let talks : List Network.Response.Talk :=
      [{ id := some "c", title := "first" }, { id := some "d", title := "new" },
        { id := some "c", title := "last" }]
    (fetchAllSuccess (fun _ => default) store talks).get? "c" =
        some { Talk.new default with identifier := "c", name := some "last" } ∧
      "a" ∉ (fetchAllSuccess (fun _ => default) store talks).keys := by
  intro stored store talks
  obtain ⟨_, listed, latest⟩ := fetchAll_mirrors (fun _ => default) store talks (by decide)
  refine ⟨latest 2 _ "c" rfl rfl ?_, ?_⟩
  · intro later other beyond reads
    have outside : talks.length ≤ later := beyond
    rw [List.getElem?_eq_none outside] at reads
    exact absurd reads (by simp)
  · rw [listed]
    decide

end EventTalks.TalksFetcher
