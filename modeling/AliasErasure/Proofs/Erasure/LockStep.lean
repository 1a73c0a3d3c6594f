import AliasErasure.Erasure.Partition

set_option autoImplicit false

/-! # Messages and descriptors are cut in step

The messages of a file and their descriptors are two lists, which are cut by one decision for each
position. So there is one ascending list of positions that stay, the same for both
(`Partition.LockStep`), and nothing changes when what stays is cut again (`partition_lockStep`).
-/

namespace AliasErasure

open Descriptor (MessageProto)

/-! ## Elements at positions -/

/-- The elements `picked` are those of `as` at the positions `js`, in this order. -/
def Picks {α : Type} (js : List Nat) (as picked : List α) : Prop :=
  picked.map some = js.map (as[·]?)

/-- The positions of the elements with a property. -/
def positionsOf {α : Type} (p : α → Bool) (as : List α) : List Nat :=
  (List.range as.length).filter fun j => as[j]?.any p

section Picks

variable {α β : Type} {p : α → Bool} {as : List α}

theorem map_getElem?_range (as : List α) : (List.range as.length).map (as[·]?) = as.map some := by
  apply List.ext_getElem?
  intro j
  by_cases hj : j < as.length
  · simp [hj]
  · simp [hj]

/-- A filtered list consists of the elements at the positions of those with the property. -/
theorem picks_filter (p : α → Bool) (as : List α) : Picks (positionsOf p as) as (as.filter p) := by
  calc (as.filter p).map some
      = (as.map some).filter (·.any p) := by rw [List.filter_map]; rfl
    _ = ((List.range as.length).map (as[·]?)).filter (·.any p) := by rw [map_getElem?_range]
    _ = (positionsOf p as).map (as[·]?) := by rw [List.filter_map]; rfl

theorem Picks.map {js : List Nat} {picked : List α} (h : Picks js as picked) (g : α → β) :
    Picks js (as.map g) (picked.map g) := by
  have hmap : (picked.map g).map some = (picked.map some).map (Option.map g) := by
    simp only [List.map_map, Function.comp_def, Option.map_some]
  rw [Picks, hmap, h]
  simp only [List.map_map, Function.comp_def, List.getElem?_map]

theorem mem_positionsOf_iff {j : Nat} {a : α} (ha : as[j]? = some a) :
    j ∈ positionsOf p as ↔ p a = true := by
  have hj : j < as.length := (List.getElem?_eq_some_iff.mp ha).1
  rw [positionsOf, List.mem_filter, List.mem_range, ha, Option.any_some]
  exact and_iff_right hj

theorem positionsOf_ascends (p : α → Bool) (as : List α) :
    (positionsOf p as).Pairwise (· < ·) :=
  List.pairwise_lt_range.filter _

theorem positionsOf_map (p : α → Bool) (g : β → α) (bs : List β) :
    positionsOf p (bs.map g) = positionsOf (fun b => p (g b)) bs := by
  simp only [positionsOf, List.length_map, List.getElem?_map, Option.any_map]

/-- The remaining positions are those of the elements without the property. -/
theorem filter_not_mem_positionsOf (p : α → Bool) (as : List α) :
    (List.range as.length).filter (· ∉ positionsOf p as) = positionsOf (fun a => !p a) as := by
  apply List.filter_congr
  intro j hj
  have hlt : j < as.length := List.mem_range.mp hj
  have ha : as[j]? = some as[j] := List.getElem?_eq_getElem hlt
  simp only [mem_positionsOf_iff ha, ha, Option.any_some]
  cases p as[j] <;> rfl

end Picks

/-! ## Partitions -/

/-- The messages `ms` and the descriptors `raws` were cut at the positions `kept`, which stay: what
goes are the messages at the remaining positions, and these are the positions of the messages that
can be erased. -/
structure Partition.LockStep (ms : List Message) (raws : List MessageProto) (kept : List Nat)
    (p : Partition) : Prop where
  ascends : kept.Pairwise (· < ·)
  messages : Picks kept ms p.messages
  raw : Picks kept raws p.raw
  aliases : Picks ((List.range ms.length).filter (· ∉ kept)) ms p.aliases
  gone_iff : ∀ j m, ms[j]? = some m → (j ∉ kept ↔ ∃ payload, m.erasablePayload? = some payload)

/-- The messages that stay do so at their positions among all. -/
theorem partitionPairs_lockStep {ms : List Message} {raws : List MessageProto}
    (h : ms.length = raws.length) :
    (partitionPairs (ms.zip raws)).LockStep ms raws (positionsOf (fun m => !m.isErasable) ms) := by
  have hfst : (ms.zip raws).map (·.1) = ms := List.map_fst_zip (by omega)
  have hsnd : (ms.zip raws).map (·.2) = raws := List.map_snd_zip (by omega)
  -- the decision about a pair is that about its message
  have hpositions : ∀ g : Message → Bool,
      positionsOf (fun p => g p.1) (ms.zip raws) = positionsOf g ms := by
    intro g
    have hmap := positionsOf_map g (·.1) (ms.zip raws)
    rw [hfst] at hmap
    exact hmap.symm
  have hkept := picks_filter (fun p : Message × MessageProto => !p.1.isErasable) (ms.zip raws)
  have hgone := picks_filter (fun p : Message × MessageProto => p.1.isErasable) (ms.zip raws)
  rw [hpositions fun m => !m.isErasable] at hkept
  rw [hpositions Message.isErasable] at hgone
  constructor
  case ascends => exact positionsOf_ascends _ ms
  case messages =>
    have hmessages := hkept.map (·.1)
    rwa [hfst] at hmessages
  case raw =>
    have hraw := hkept.map (·.2)
    rwa [hsnd] at hraw
  case aliases =>
    have haliases := hgone.map (·.1)
    rw [hfst] at haliases
    rw [filter_not_mem_positionsOf]
    simp only [Bool.not_not]
    exact haliases
  case gone_iff =>
    intro j m hm
    rw [mem_positionsOf_iff hm, ← Option.isSome_iff_exists]
    show ¬ (!m.isErasable) = true ↔ m.isErasable = true
    cases m.isErasable <;> decide

/-- What stays of some pairs is cut into the pairs that stay, and no aliases. -/
theorem partitionPairs_again (pairs : List (Message × MessageProto)) :
    partitionPairs ((partitionPairs pairs).messages.zip (partitionPairs pairs).raw)
      = { partitionPairs pairs with aliases := [] } := by
  have hzip : (partitionPairs pairs).messages.zip (partitionPairs pairs).raw
      = pairs.filter fun p => !p.1.isErasable := by
    simp [partitionPairs, List.zip_map']
  rw [hzip]
  simp [partitionPairs, List.filter_filter]

theorem partitionMessages_eq_ok_iff {file : String} {ms : List Message}
    {raws : List MessageProto} {p : Partition} :
    partitionMessages file ms raws = .ok p ↔
      ms.length = raws.length ∧ p = partitionPairs (ms.zip raws) := by
  rw [partitionMessages]
  split
  next h => simp [h, eq_comm]
  next h => simp [h]

theorem exists_partitionMessages_eq_error_iff {file : String} {ms : List Message}
    {raws : List MessageProto} :
    (∃ e, partitionMessages file ms raws = .error e) ↔ ms.length ≠ raws.length := by
  rw [partitionMessages]
  split
  next h => simp [h]
  next h => simp [h]

/-- **Messages and descriptors are cut in step.** Cutting fails exactly if there are not as many
descriptors as messages. Otherwise one ascending list of positions tells what stays of both; the
aliases that go are the messages at the remaining positions, and these are the messages that can be
erased. When what stays is cut again, it all stays. -/
theorem partition_lockStep (file : String) (ms : List Message) (raws : List MessageProto) :
    ((∃ e, partitionMessages file ms raws = .error e) ↔ ms.length ≠ raws.length) ∧
      (ms.length = raws.length → ∃ p, partitionMessages file ms raws = .ok p ∧
        (∃ kept, p.LockStep ms raws kept) ∧
        partitionMessages file p.messages p.raw = .ok { p with aliases := [] }) := by
  refine ⟨exists_partitionMessages_eq_error_iff, fun hlength => ?_⟩
  have hcut : partitionMessages file ms raws = .ok (partitionPairs (ms.zip raws)) :=
    partitionMessages_eq_ok_iff.mpr ⟨hlength, rfl⟩
  refine ⟨_, hcut, ⟨_, partitionPairs_lockStep hlength⟩, ?_⟩
  rw [partitionMessages_eq_ok_iff]
  refine ⟨?_, (partitionPairs_again _).symm⟩
  simp [partitionPairs]

/-- Messages of a file: of the three aliases, `Tags` is kept, since its payload is declared inside
it. -/
def shelfMessages : List Message :=
  [{ name := "Isbn", fullName := ".shop.Isbn", marked := true, fields := [{ name := "value" }] },
   { name := "Tags", fullName := ".shop.Tags", marked := true
     fields := [{ name := "value", kind := .message, message := some ".shop.Tags.Entry" }] },
   { name := "Book", fullName := ".shop.Book" },
   { name := "Title", fullName := ".shop.Title", marked := true, fields := [{ name := "value" }] }]

/-- Their descriptors. -/
def shelfProtos : List MessageProto := shelfMessages.map fun m => { name := some m.name }

theorem partition_lockStep_shelf :
    shelfMessages.length = shelfProtos.length ∧
    ∃ p, partitionMessages "shelf.proto" shelfMessages shelfProtos = .ok p ∧
      (∃ kept, p.LockStep shelfMessages shelfProtos kept) ∧
      partitionMessages "shelf.proto" p.messages p.raw = .ok { p with aliases := [] } ∧
      p.messages.map (·.name) = ["Tags", "Book"] := by
  have hlength : shelfMessages.length = shelfProtos.length := rfl
  obtain ⟨p, hp, hkept, hagain⟩ :=
    (partition_lockStep "shelf.proto" shelfMessages shelfProtos).2 hlength
  obtain ⟨-, hpairs⟩ := partitionMessages_eq_ok_iff.mp hp
  refine ⟨hlength, p, hp, hkept, hagain, ?_⟩
  rw [hpairs]
  decide

end AliasErasure
