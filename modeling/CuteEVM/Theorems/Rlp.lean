import CuteEVM.Rlp.Output
import CuteEVM.Rlp.Splitting
import CuteEVM.Rlp.Values

set_option autoImplicit false

namespace CuteEVM

open Rlp (Item)

-- The decoder accepts the canonical encodings and nothing else, and the encoder writes them. The lengths are those that
-- a byte slice can have.
theorem rlp_canonical :
    (∀ b : Bytes, b.length < 2 ^ 63 →
      ((∃ v, decodeBytes b = .ok v) ↔ ∃! v, Rlp.encode v = b) ∧
      ∀ v, decodeBytes b = .ok v → Rlp.encode v = b ∧ encodeToBytes v = some b) ∧
    (∀ v : Item, (Rlp.encode v).length < 2 ^ 63 → encodeToBytes v = some (Rlp.encode v) ∧ decodeBytes (Rlp.encode v) = .ok v) ∧
    (∀ (b b' : Bytes) (v : Item), decodeBytes b = .ok v → decodeBytes b' = .ok v → b = b') ∧
    ∀ b : Bytes, decodeBytes b ≠ .error .outOfFuel := by
  refine ⟨fun b short => ⟨⟨?_, ?_⟩, ?_⟩, fun v short => ?_, fun b b' v first second => ?_, decodeBytes_fuel⟩
  · -- Two trees with one encoding are both what the decoder returns.
    rintro ⟨v, decoded⟩
    refine ⟨v, decodeBytes_sound decoded, fun other same => ?_⟩
    have again : decodeBytes (Rlp.encode other) = .ok other := decodeBytes_complete (by rw [same]; omega)
    rw [same, decoded] at again
    exact (Except.ok.inj again).symm
  · rintro ⟨v, rfl, -⟩
    exact ⟨v, decodeBytes_complete (by omega)⟩
  · intro v decoded
    have same := decodeBytes_sound decoded
    exact ⟨same, by rw [encodeToBytes_eq (by rw [same]; omega), same]⟩
  · exact ⟨encodeToBytes_eq (by omega), decodeBytes_complete (by omega)⟩
  · rw [← decodeBytes_sound first, ← decodeBytes_sound second]

def sampleItem : Item := .list [.str [0x63, 0x61, 0x74], .list [], .str [0x05]]

theorem rlp_canonical_nested :
    (∃! v, Rlp.encode v = [0xc6, 0x83, 0x63, 0x61, 0x74, 0xc0, 0x05]) ∧
    encodeToBytes sampleItem = some [0xc6, 0x83, 0x63, 0x61, 0x74, 0xc0, 0x05] ∧
    decodeBytes [0xc6, 0x83, 0x63, 0x61, 0x74, 0xc0, 0x05] = .ok sampleItem := by
  have written : Rlp.encode sampleItem = [0xc6, 0x83, 0x63, 0x61, 0x74, 0xc0, 0x05] := by decide +kernel
  have both := rlp_canonical.2.1 sampleItem (by rw [written]; decide)
  rw [written] at both
  exact ⟨(rlp_canonical.1 _ (by decide)).1.1 ⟨_, both.2⟩, both.1, both.2⟩

-- All outputs of a buffer are the encodings of the trees that were written to it, where the header of a list holds the
-- length of the encodings of its elements.
theorem outputs_agree (calls : List BufCall) (w : Encbuf) (ran : calls.foldlM Encbuf.call ({}, []) = some (w, []))
    (fits : w.size < 2 ^ 63) :
    ∃ items, calls = callsOfAll items ∧ w.size = (Rlp.encodeAll items).length ∧
      w.toBytes = some (Rlp.encodeAll items) ∧ w.toWriter = some (Rlp.encodeAll items) ∧
      ∀ sizes : Nat → Nat, (∀ call, 0 < sizes call) → ∀ rounds, w.size < rounds →
        EncReader.readAll sizes rounds 0 { buf := some w } = some (Rlp.encodeAll items) := by
  obtain ⟨items, shape, rfl⟩ := calls_closed ran
  have short : (Rlp.encodeAll items).length < 2 ^ 64 := by
    by_contra large
    have beyond := writeItems_large items {} (by omega)
    omega
  obtain ⟨ordered, joined, size⟩ := render_written short
  have sized : (render (writeItems items {}).str 0 (writeItems items {}).lheads).length = (writeItems items {}).size := by
    rw [joined, size]
  refine ⟨items, shape, size, ?_⟩
  rw [← joined]
  refine ⟨toBytes_eq ordered sized, toWriter_eq ordered, fun sizes nonzero rounds enough => ?_⟩
  exact readAll_left nonzero 0 (.start ordered sized) (by omega)

theorem outputs_agree_nested :
    EncReader.readAll (fun _ => 2) 8 0 { buf := some (writeItem sampleItem {}) } =
      some [0xc6, 0x83, 0x63, 0x61, 0x74, 0xc0, 0x05] ∧
    (writeItem sampleItem {}).toWriter = some [0xc6, 0x83, 0x63, 0x61, 0x74, 0xc0, 0x05] := by
  have ran := calls_item sampleItem [] {} []
  rw [List.append_nil] at ran
  have size : (writeItem sampleItem {}).size = 7 := by decide +kernel
  obtain ⟨items, -, -, bytes, written, read⟩ :=
    outputs_agree (callsOf sampleItem) (writeItem sampleItem {}) ran (by rw [size]; decide)
  have same : (writeItem sampleItem {}).toBytes = some [0xc6, 0x83, 0x63, 0x61, 0x74, 0xc0, 0x05] := by decide +kernel
  rw [← same, bytes]
  exact ⟨read _ (fun _ => by decide) 8 (by rw [size]; decide), written⟩

-- The slice parser and the stream parser read the same first value, and the same values on every walk through the lists
-- of the input.
theorem parsers_agree (b : Bytes) (small : b.length < 2 ^ 63) :
    (∀ k content rest, k ≠ .list → (Raw.split b = some (.ok (k, content, rest)) ↔
      ∃ s, Read.visit .value (newStream b) = (.ok (some (k, content)), s) ∧ s.r = rest)) ∧
    (∀ content rest, Raw.split b = some (.ok (.list, content, rest)) ↔
      ∃ s, Read.visit .list (newStream b) = (.ok (some (.list, content)), s) ∧ s.r = content ++ rest) ∧
    (∀ visits readings r, (∃ unread, Raw.walk visits [b] = some (readings, unread) ∧ unread.flatten = r) ↔
      ∃ s, Read.walk visits (newStream b) = (.ok readings, s) ∧ s.r = r) ∧
    Raw.split b ≠ none ∧ Raw.splitString b ≠ none ∧ Raw.splitList b ≠ none ∧ Raw.countValues b ≠ none := by
  have follows := newStream_follows b
  have short : b.length < 2 ^ 64 := by omega
  refine ⟨fun k content rest flat => ?_, fun content rest => ?_, fun visits readings r => ?_, ?_⟩
  · simpa using @split_value (newStream b) b content rest [] k short follows flat
  · simpa using @split_list (newStream b) b content rest [] short follows
  · rcases walk_agrees follows (List.forall_mem_singleton.mpr short) visits with
      ⟨readings', s, unread, ran, same, later⟩ | ⟨⟨err, s, failed⟩, stuck⟩
    · rw [ran, same]
      constructor
      · rintro ⟨unread', result, rfl⟩
        cases result
        exact ⟨s, rfl, later.unread⟩
      · rintro ⟨s', result, rfl⟩
        cases result
        exact ⟨unread, rfl, later.unread.symm⟩
    · rw [failed, stuck]
      exact ⟨nofun, nofun⟩
  · refine ⟨?_, ?_, ?_, Raw.countFrom_ends 0 short (Nat.lt_succ_self _)⟩
    all_goals
      rcases Raw.split_cases short with ⟨err, failed⟩ | ⟨k, content, rest, split, -⟩
    · rw [failed]
      nofun
    · rw [split]
      nofun
    · simp [Raw.splitString, failed]
    · by_cases isList : k = .list <;> simp [Raw.splitString, split, isList]
    · simp [Raw.splitList, failed]
    · by_cases isList : k = .list <;> simp [Raw.splitList, split, isList]

theorem parsers_agree_nested :
    ∃ s, Read.walk [.list, .value, .list, .listEnd, .value, .listEnd] (newStream [0xc6, 0x83, 0x63, 0x61, 0x74, 0xc0, 0x05]) =
      (.ok [some (.list, [0x83, 0x63, 0x61, 0x74, 0xc0, 0x05]), some (.string, [0x63, 0x61, 0x74]), some (.list, []), none,
        some (.byte, [0x05]), none], s) ∧ s.r = [] :=
  ((parsers_agree [0xc6, 0x83, 0x63, 0x61, 0x74, 0xc0, 0x05] (by decide)).2.2.1 _ _ _).1 ⟨[[]], by decide +kernel, rfl⟩

end CuteEVM
