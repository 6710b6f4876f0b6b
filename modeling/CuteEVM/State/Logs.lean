import CuteEVM.State.Edits

set_option autoImplicit false

-- The logs are kept by transaction and numbered by one counter.

namespace CuteEVM

def JournalEntry.logTx : JournalEntry → Option Hash
  | .addLogChange txhash => some txhash
  | _ => none

def logTxs (entries : List JournalEntry) : List Hash := entries.filterMap JournalEntry.logTx

structure LogBook where
  logs : Hash → List Log
  logSize : Nat
  thash : Hash
  bhash : Hash
  txIndex : Nat
  nextRevisionId : Nat

def StateDB.logBook (s : StateDB) : LogBook := ⟨s.logs, s.logSize, s.thash, s.bhash, s.txIndex, s.nextRevisionId⟩

section Silent

structure Silent (s t : StateDB) : Prop where
  book : t.logBook = s.logBook
  revisions : t.validRevisions = s.validRevisions
  entries : ∃ new, t.journal.entries = new ++ s.journal.entries ∧ logTxs new = []

variable {s t u : StateDB}

theorem Silent.refl (s : StateDB) : Silent s s := ⟨rfl, rfl, [], rfl, rfl⟩

theorem Silent.trans (first : Silent s t) (second : Silent t u) : Silent s u := by
  obtain ⟨new, entries, none⟩ := first.entries
  obtain ⟨more, entries', none'⟩ := second.entries
  refine ⟨second.book.trans first.book, second.revisions.trans first.revisions, more ++ new, ?_, ?_⟩
  · rw [entries', entries, List.append_assoc]
  · unfold logTxs at none none' ⊢
    rw [List.filterMap_append, none, none', List.append_nil]

theorem entries_append (s : StateDB) (entry : JournalEntry) : (s.append entry).journal.entries = entry :: s.journal.entries := by
  unfold StateDB.append Journal.append
  dsimp only
  split <;> rfl

theorem Silent.object (silent : Silent s t) (o : StateObject) : Silent s (t.setStateObject o) :=
  ⟨silent.book, silent.revisions, silent.entries⟩

theorem Silent.append (silent : Silent s t) {entry : JournalEntry} (plain : entry.logTx = none) : Silent s (t.append entry) := by
  refine silent.trans ⟨rfl, rfl, [entry], entries_append t entry, ?_⟩
  unfold logTxs
  rw [List.filterMap_cons_none plain]
  rfl

theorem Silent.load (s : StateDB) (a : Address) : Silent s (s.load a) := by
  rcases s.load_eq a with same | ⟨data, -, -, loaded⟩
  · rw [same]
    exact .refl s
  · rw [loaded]
    exact (Silent.refl s).object _

theorem Silent.touch (silent : Silent s t) (o : StateObject) : Silent s (t.touch o) := by
  have touched : Silent s (t.append (.touchChange o.address)) := silent.append rfl
  unfold StateDB.touch
  dsimp only
  split
  · exact ⟨touched.book, touched.revisions, touched.entries⟩
  · exact touched

theorem Silent.balance (silent : Silent s t) (o : StateObject) (amount : Int) : Silent s (t.setObjectBalance o amount) :=
  (silent.append rfl).object _

variable [Crypto]

theorem Silent.obtain (s : StateDB) (a : Address) : Silent s (s.getOrNewStateObject a).2 := by
  unfold StateDB.getOrNewStateObject StateDB.createObject
  rw [s.getStateObject_eq]
  have loaded := Silent.load s a
  cases found : s.lookup a with
  | some o => exact loaded
  | none =>
    -- The second look at the address finds as little as the first one.
    dsimp only
    rw [(s.load a).getStateObject_eq]
    have again := loaded.trans (Silent.load (s.load a) a)
    cases (s.load a).lookup a with
    | none => exact (again.append rfl).object _
    | some prev => exact (again.append rfl).object _

theorem Silent.account (s : StateDB) (a : Address) : Silent s (s.createAccount a) := by
  unfold StateDB.createAccount StateDB.createObject
  rw [s.getStateObject_eq]
  have loaded := Silent.load s a
  cases s.lookup a with
  | none => exact (loaded.append rfl).object _
  | some prev => exact ((loaded.append rfl).object _).object _

end Silent

section Quiet

variable [Crypto]

def Op.quiet : Op → Bool
  | .addLog _ | .prepare _ _ _ | .snapshot | .revertToSnapshot _ | .finalise _ | .commit _ | .reset _ => false
  | _ => true

theorem Op.silent {s s' : StateDB} {op : Op} (quiet : op.quiet = true) (result : op.apply s = .ok s') : Silent s s' := by
  cases op with
  | addLog _ | prepare _ _ _ | snapshot | revertToSnapshot _ | finalise _ | commit _ | reset _ => cases quiet
  | exist a | empty a | getBalance a | getNonce a | getCodeHash a | hasSuicided a | getCodeSize a | getCode a =>
    cases result
    have loaded := Silent.load s a
    cases found : s.lookup a <;>
      simp only [StateDB.exist, StateDB.empty, StateDB.getBalance, StateDB.getNonce, StateDB.getCodeSize, StateDB.getCodeHash,
        StateDB.getCode, StateDB.hasSuicided, s.getStateObject_eq, found]
    all_goals first
      | exact loaded
      | exact loaded.object _
      | (split <;> exact loaded)
  | getState a key | getCommittedState a key =>
    cases result
    have loaded := Silent.load s a
    cases found : s.lookup a <;> simp only [StateDB.getState, StateDB.getCommittedState, s.getStateObject_eq, found]
    all_goals first
      | exact loaded
      | exact loaded.object _
  | addBalance a amount =>
    cases result
    have obtained := Silent.obtain s a
    unfold StateDB.addBalance
    dsimp only
    split
    · split
      · exact obtained.touch _
      · exact obtained
    · exact obtained.balance _ _
  | subBalance a amount =>
    cases result
    have obtained := Silent.obtain s a
    unfold StateDB.subBalance
    dsimp only
    split
    · exact obtained
    · exact obtained.balance _ _
  | setBalance a amount =>
    cases result
    exact (Silent.obtain s a).balance _ _
  | setNonce a nonce =>
    cases result
    exact ((Silent.obtain s a).append rfl).object _
  | setCode a code =>
    cases result
    exact ((Silent.obtain s a).append rfl).object _
  | setState a key value =>
    cases result
    have obtained := Silent.obtain s a
    unfold StateDB.setState
    dsimp only
    split
    · exact obtained.object _
    · exact ((obtained.object _).append rfl).object _
  | createAccount a =>
    cases result
    exact .account s a
  | suicide a =>
    cases result
    have loaded := Silent.load s a
    simp only [StateDB.suicide, s.getStateObject_eq]
    cases s.lookup a with
    | none => exact loaded
    | some o => exact (loaded.append rfl).object _
  | addRefund gas =>
    cases result
    have changed : Silent s (s.append (.refundChange s.refund)) := (Silent.refl s).append rfl
    exact ⟨changed.book, changed.revisions, changed.entries⟩
  | subRefund gas =>
    have changed : Silent s (s.append (.refundChange s.refund)) := (Silent.refl s).append rfl
    simp only [Op.apply, StateDB.subRefund] at result
    split at result
    · cases result
    · cases result
      exact ⟨changed.book, changed.revisions, changed.entries⟩
  | addPreimage hash preimage =>
    cases result
    have changed : Silent s (s.append (.addPreimageChange hash)) := (Silent.refl s).append rfl
    unfold StateDB.addPreimage
    split
    · exact .refl s
    · exact ⟨changed.book, changed.revisions, changed.entries⟩

end Quiet

-- The logs as one sequence, with what the calls to come need.
structure Emission where
  held : List Log := []
  -- The snapshots to which one can go back, the oldest one first, with the number of logs at the time.
  marks : List (Nat × Nat) := []
  nextId : Nat := 0
  thash : Hash := 0
  bhash : Hash := 0
  txIndex : Nat := 0

namespace Emission

def next (e : Emission) : Op → Emission
  | .addLog log =>
    let log := { log with txHash := e.thash, blockHash := e.bhash, txIndex := e.txIndex, index := e.held.length % 2 ^ 64 }
    { e with held := e.held ++ [log] }
  | .prepare thash bhash ti => { e with thash := thash, bhash := bhash, txIndex := ti }
  | .snapshot => { e with marks := e.marks ++ [(e.nextId, e.held.length)], nextId := e.nextId + 1 }
  | .revertToSnapshot revid =>
    let older := e.marks.takeWhile fun mark => mark.1 < revid
    match e.marks[older.length]? with
    | some (_, count) => { e with held := e.held.take count, marks := older }
    | none => e
  | .finalise _ | .commit _ => { e with marks := [] }
  | .reset _ => { nextId := e.nextId }
  | _ => e

def of (held : List Log) (txhash : Hash) : List Log := held.filter fun log => log.txHash = txhash

-- The number of logs that were held at a place in the journal, if `base` of them are older than the journal.
def below (base : Nat) (entries : List JournalEntry) (journalIndex : Nat) : Nat :=
  base + (logTxs (entries.drop (entries.length - journalIndex))).length

-- The state keeps the logs of the sequence, and its journal knows how to take back the last ones.
structure Tracks (e : Emission) (base : Nat) (s : StateDB) : Prop where
  book : s.logBook = ⟨of e.held, e.held.length % 2 ^ 64, e.thash, e.bhash, e.txIndex, e.nextId⟩
  numbered : e.held.map (·.index) = (List.range e.held.length).map (· % 2 ^ 64)
  journal : ∃ rest, e.held.reverse.map (·.txHash) = logTxs s.journal.entries ++ rest ∧ rest.length = base
  marks : e.marks = s.validRevisions.map fun r => (r.id, below base s.journal.entries r.journalIndex)

theorem of_append (held : List Log) (log : Log) (txhash : Hash) :
    of (held ++ [log]) txhash = of held txhash ++ if log.txHash = txhash then [log] else [] := by
  unfold of
  rw [List.filter_append, List.filter_singleton]
  by_cases same : log.txHash = txhash
  · rw [if_pos same, decide_eq_true same]
    rfl
  · rw [if_neg same, decide_eq_false same]
    rfl

theorem below_append (base : Nat) (new : List JournalEntry) {entries : List JournalEntry} {journalIndex : Nat}
    (inside : journalIndex ≤ entries.length) :
    below base (new ++ entries) journalIndex = below base entries journalIndex := by
  have skipped : (new ++ entries).length - journalIndex = new.length + (entries.length - journalIndex) := by
    rw [List.length_append]
    omega
  unfold below
  rw [skipped, ← List.drop_drop, List.drop_left]

variable {e : Emission} {base : Nat} {s t : StateDB}

theorem Tracks.silent (tracks : Tracks e base s) (bounded : ∀ r ∈ s.validRevisions, r.journalIndex ≤ s.journal.entries.length)
    (silent : Silent s t) : Tracks e base t := by
  obtain ⟨new, entries, none⟩ := silent.entries
  have same : logTxs t.journal.entries = logTxs s.journal.entries := by
    rw [entries]
    unfold logTxs at none ⊢
    rw [List.filterMap_append, none, List.nil_append]
  refine ⟨silent.book.trans tracks.book, tracks.numbered, by rw [same]; exact tracks.journal, ?_⟩
  rw [tracks.marks, silent.revisions, entries]
  exact List.map_congr_left fun r member => by rw [below_append base new (bounded r member)]

theorem Tracks.addLog (tracks : Tracks e base s) (bounded : ∀ r ∈ s.validRevisions, r.journalIndex ≤ s.journal.entries.length)
    (log : Log) : Tracks (e.next (.addLog log)) base (s.addLog log) := by
  obtain ⟨rest, journal, older⟩ := tracks.journal
  have book := tracks.book
  simp only [StateDB.logBook, LogBook.mk.injEq] at book
  obtain ⟨logs, logSize, thash, bhash, txIndex, nextId⟩ := book
  have entries : (s.addLog log).journal.entries = .addLogChange s.thash :: s.journal.entries := entries_append s _
  refine ⟨?_, ?_, ⟨rest, ?_, older⟩, ?_⟩
  · simp only [StateDB.logBook, StateDB.addLog, next, LogBook.mk.injEq]
    refine ⟨?_, ?_, thash, bhash, txIndex, nextId⟩
    · funext txhash
      rw [of_append, logs, thash, bhash, txIndex, logSize]
      by_cases same : txhash = e.thash
      · subst same
        rw [Function.update_self, if_pos rfl]
      · rw [Function.update_of_ne same, if_neg (Ne.symm same), List.append_nil]
    · rw [logSize, List.length_append, List.length_singleton]
      omega
  · simp only [next, List.map_append, List.length_append, List.length_singleton, List.range_succ, tracks.numbered, List.map_cons,
      List.map_nil]
  · rw [entries]
    simp only [next, List.reverse_append, List.reverse_singleton, List.singleton_append, List.map_cons, logTxs]
    rw [journal, ← thash]
    rfl
  · rw [entries]
    show e.marks = s.validRevisions.map _
    rw [tracks.marks]
    exact List.map_congr_left fun r member => by
      rw [← below_append base [.addLogChange s.thash] (bounded r member)]
      rfl

theorem Tracks.prepare (tracks : Tracks e base s) (thash bhash : Hash) (ti : Nat) :
    Tracks (e.next (.prepare thash bhash ti)) base (s.prepare thash bhash ti) := by
  have book := tracks.book
  simp only [StateDB.logBook, LogBook.mk.injEq] at book
  obtain ⟨logs, logSize, -, -, -, nextId⟩ := book
  refine ⟨?_, tracks.numbered, tracks.journal, tracks.marks⟩
  simp only [StateDB.logBook, StateDB.prepare, next, LogBook.mk.injEq]
  exact ⟨logs, logSize, trivial, trivial, trivial, nextId⟩

theorem Tracks.count (tracks : Tracks e base s) : e.held.length = base + (logTxs s.journal.entries).length := by
  obtain ⟨rest, journal, older⟩ := tracks.journal
  have length := congrArg List.length journal
  rw [List.length_map, List.length_reverse, List.length_append] at length
  omega

theorem Tracks.snapshot (tracks : Tracks e base s) : Tracks (e.next .snapshot) base s.snapshot.2 := by
  have book := tracks.book
  simp only [StateDB.logBook, LogBook.mk.injEq] at book
  obtain ⟨logs, logSize, thash, bhash, txIndex, nextId⟩ := book
  refine ⟨?_, tracks.numbered, tracks.journal, ?_⟩
  · simp only [StateDB.logBook, StateDB.snapshot, next, LogBook.mk.injEq]
    exact ⟨logs, logSize, thash, bhash, txIndex, by rw [nextId]⟩
  · have all : below base s.journal.entries s.journal.entries.length = e.held.length := by
      rw [tracks.count, below, Nat.sub_self, List.drop_zero]
    simp only [next, StateDB.snapshot, List.map_append, List.map_cons, List.map_nil, tracks.marks, all, nextId]

theorem Tracks.settled (tracks : Tracks e base s) (book : t.logBook = s.logBook) (journal : t.journal.entries = [])
    (revisions : t.validRevisions = []) : Tracks { e with marks := [] } e.held.length t := by
  refine ⟨book.trans tracks.book, tracks.numbered, ⟨e.held.reverse.map (·.txHash), ?_, ?_⟩, ?_⟩
  · rw [journal]
    rfl
  · rw [List.length_map, List.length_reverse]
  · rw [revisions]
    rfl

section Undo

variable [Crypto]

theorem undoWorld_plain (trie : Address → Option Account) (codes : Hash → Option Bytes) {entry : JournalEntry}
    (plain : entry.logTx = none) (world : World) :
    (entry.undoWorld trie codes world).logs = world.logs ∧ (entry.undoWorld trie codes world).logSize = world.logSize := by
  cases entry with
  | addLogChange txhash => cases plain
  | _ => exact ⟨rfl, rfl⟩

theorem undo_last (trie : Address → Option Account) (codes : Hash → Option Bytes) {held : List Log} {log : Log} {world : World}
    (logs : world.logs = of (held ++ [log])) (logSize : world.logSize = (held ++ [log]).length % 2 ^ 64) :
    (JournalEntry.undoWorld trie codes (.addLogChange log.txHash) world).logs = of held ∧
      (JournalEntry.undoWorld trie codes (.addLogChange log.txHash) world).logSize = held.length % 2 ^ 64 := by
  constructor
  · show Function.update world.logs log.txHash (world.logs log.txHash).dropLast = _
    funext txhash
    rw [logs]
    by_cases same : txhash = log.txHash
    · subst same
      rw [Function.update_self, of_append, if_pos rfl, List.dropLast_concat]
    · rw [Function.update_of_ne same, of_append, if_neg (Ne.symm same), List.append_nil]
  · have size : (held ++ [log]).length = held.length + 1 := by rw [List.length_append, List.length_singleton]
    have less : ((held.length + 1) % 2 ^ 64 + (2 ^ 64 - 1)) % 2 ^ 64 = held.length % 2 ^ 64 := by omega
    rw [← less, ← size, ← logSize]
    rfl

theorem undoAll_logs (trie : Address → Option Account) (codes : Hash → Option Bytes) (upper : List JournalEntry) {held : List Log}
    {world : World} {rest : List Hash} (journal : held.reverse.map (·.txHash) = logTxs upper ++ rest) (logs : world.logs = of held)
    (logSize : world.logSize = held.length % 2 ^ 64) :
    (UndoLog.undoAll (JournalEntry.undoWorld trie codes) upper world).logs = of (held.take rest.length) ∧
      (UndoLog.undoAll (JournalEntry.undoWorld trie codes) upper world).logSize = (held.take rest.length).length % 2 ^ 64 := by
  induction upper generalizing held world with
  | nil =>
    have length : held.length = rest.length := by
      have same := congrArg List.length journal
      rwa [List.length_map, List.length_reverse] at same
    rw [UndoLog.undoAll_nil, List.take_of_length_le (Nat.le_of_eq length)]
    exact ⟨logs, logSize⟩
  | cons entry upper ih =>
    rw [UndoLog.undoAll_cons]
    cases kind : entry.logTx with
    | none =>
      have shorter : logTxs (entry :: upper) = logTxs upper := List.filterMap_cons_none kind
      obtain ⟨same, size⟩ := undoWorld_plain trie codes kind world
      rw [shorter] at journal
      exact ih journal (same.trans logs) (size.trans logSize)
    | some txhash =>
      have longer : logTxs (entry :: upper) = txhash :: logTxs upper := List.filterMap_cons_some kind
      obtain rfl : entry = .addLogChange txhash := by
        cases entry <;> cases kind
        rfl
      rw [longer, List.cons_append] at journal
      rcases List.eq_nil_or_concat held with rfl | ⟨older, log, rfl⟩
      · cases journal
      · rw [List.concat_eq_append] at journal logs logSize ⊢
        rw [List.reverse_append, List.reverse_singleton, List.singleton_append, List.map_cons] at journal
        obtain ⟨rfl, remaining⟩ := List.cons.inj journal
        obtain ⟨logs, logSize⟩ := undo_last trie codes logs logSize
        have length := congrArg List.length remaining
        rw [List.length_map, List.length_reverse, List.length_append] at length
        rw [List.take_append_of_le_length (by omega)]
        exact ih remaining logs logSize

end Undo

section Runs

variable [Crypto]

omit [Crypto] in
theorem revert_context {revid : Nat} (result : s.revertToSnapshot revid = .ok t) :
    (t.thash, t.bhash, t.txIndex) = (s.thash, s.bhash, s.txIndex) := by
  have loads : ∀ (u : StateDB) (a : Address), ((u.load a).thash, (u.load a).bhash, (u.load a).txIndex) =
      (u.thash, u.bhash, u.txIndex) := by
    intro u a
    rcases u.load_eq a with same | ⟨data, -, -, loaded⟩
    · rw [same]
    · rw [loaded]
      rfl
  refine revertToSnapshot_keeps (fun _ u => (u.thash, u.bhash, u.txIndex) = (s.thash, s.bhash, s.txIndex)) ?_
    (fun _ _ _ _ kept => kept) rfl result
  intro entry rest u u' kept undo
  rw [← kept]
  cases undo with
  | create a | reset prev | global => rfl
  | restore found restores => exact loads u _
  | missing => exact loads u _

omit [Crypto] in
theorem marks_found {older newer : List Revision} {r : Revision} (ids : ∀ r' ∈ older, r'.id < r.id) (place place' : Revision → Nat)
    {marks : List (Nat × Nat)}
    (split : marks = older.map (fun r' => (r'.id, place r')) ++ (r.id, place r) :: newer.map fun r' => (r'.id, place' r')) :
    (marks.takeWhile fun mark => mark.1 < r.id) = older.map (fun r' => (r'.id, place r')) ∧
      marks[(marks.takeWhile fun mark => mark.1 < r.id).length]? = some (r.id, place r) := by
  have found : (marks.takeWhile fun mark => mark.1 < r.id) = older.map fun r' => (r'.id, place r') := by
    rw [split, List.takeWhile_append_of_pos]
    · rw [List.takeWhile_cons_of_neg (by simp), List.append_nil]
    · intro mark member
      obtain ⟨r', member', rfl⟩ := List.mem_map.mp member
      exact decide_eq_true (ids r' member')
  refine ⟨found, ?_⟩
  rw [found, split, List.getElem?_append_right (Nat.le_refl _), Nat.sub_self]
  rfl

omit [Crypto] in
theorem taken_back {held : List Log} {upper lower rest : List Hash}
    (journal : held.reverse.map (·.txHash) = upper ++ (lower ++ rest)) :
    (held.take (lower ++ rest).length).reverse.map (·.txHash) = lower ++ rest := by
  have length := congrArg List.length journal
  rw [List.length_map, List.length_reverse, List.length_append] at length
  rw [List.reverse_take, List.map_drop, journal, List.drop_left' (by omega)]

omit [Crypto] in
theorem numbered_take {held : List Log} (numbered : held.map (·.index) = (List.range held.length).map (· % 2 ^ 64)) (count : Nat) :
    (held.take count).map (·.index) = (List.range (held.take count).length).map (· % 2 ^ 64) := by
  rw [List.map_take, numbered, ← List.map_take, List.take_range, List.length_take]

theorem Tracks.revert (tracks : Tracks e base s) (valid : Valid s) {older newer : List Revision} {r : Revision}
    (split : s.validRevisions = older ++ r :: newer) (result : s.revertToSnapshot r.id = .ok t) :
    Tracks (e.next (.revertToSnapshot r.id)) base t := by
  obtain ⟨t', upper, reverted, rewound, length⟩ := revertToSnapshot_ok valid split
  obtain rfl : t = t' := Except.ok.inj (result.symm.trans reverted)
  obtain ⟨rest, journal, oldest⟩ := tracks.journal
  have book := tracks.book
  simp only [StateDB.logBook, LogBook.mk.injEq] at book
  obtain ⟨logs, logSize, thash, bhash, txIndex, nextId⟩ := book
  have context := revert_context result
  simp only [Prod.mk.injEq] at context
  have sorted := valid.ordered.sorted
  rw [split] at sorted
  have before : ∀ r' ∈ older, r'.id < r.id ∧ r'.journalIndex ≤ r.journalIndex :=
    fun r' member => (List.pairwise_append.mp sorted).2.2 r' member r List.mem_cons_self
  -- the places of the snapshots that stay, and of the one that is gone back to
  have places : ∀ r' : Revision, r'.journalIndex ≤ r.journalIndex →
      below base s.journal.entries r'.journalIndex = below base t.journal.entries r'.journalIndex := by
    intro r' inside
    rw [rewound.entries, below_append base upper (by omega)]
  have marks : e.marks = older.map (fun r' => (r'.id, below base t.journal.entries r'.journalIndex)) ++
      (r.id, below base t.journal.entries r.journalIndex) :: newer.map fun r' =>
        (r'.id, below base s.journal.entries r'.journalIndex) := by
    rw [tracks.marks, split, List.map_append, List.map_cons, places r (Nat.le_refl _)]
    rw [List.map_congr_left fun r' member => by rw [places r' (before r' member).2]]
  obtain ⟨found, here⟩ := marks_found (fun r' member => (before r' member).1) _ _ marks
  have parts : logTxs s.journal.entries = logTxs upper ++ logTxs t.journal.entries := by
    unfold logTxs
    rw [rewound.entries, List.filterMap_append]
  have total : below base t.journal.entries r.journalIndex = (logTxs t.journal.entries ++ rest).length := by
    rw [below, ← length, Nat.sub_self, List.drop_zero, List.length_append]
    omega
  rw [parts, List.append_assoc] at journal
  obtain ⟨logs', logSize'⟩ := undoAll_logs s.trie s.codes upper (show _ = _ from journal) (show s.world.logs = _ from logs) logSize
  rw [← rewound.world] at logs' logSize'
  simp only [next, here, total]
  refine ⟨?_, numbered_take tracks.numbered _, ⟨rest, taken_back journal, oldest⟩, ?_⟩
  · simp only [StateDB.logBook, LogBook.mk.injEq]
    exact ⟨logs', logSize', context.1.trans thash, context.2.1.trans bhash, context.2.2.trans txIndex,
      rewound.nextRevisionId.trans nextId⟩
  · rw [rewound.validRevisions]
    exact found

theorem finaliseObject_logBook (deleteEmptyObjects : Bool) (s : StateDB) (a : Address) :
    (s.finaliseObject deleteEmptyObjects a).logBook = s.logBook := by
  unfold StateDB.finaliseObject
  split
  · rfl
  · dsimp only
    split <;> rfl

theorem commitObject_logBook (deleteEmptyObjects : Bool) (s : StateDB) (a : Address) :
    (s.commitObject deleteEmptyObjects a).logBook = s.logBook := by
  unfold StateDB.commitObject StateDB.commitCode
  split
  · rfl
  · dsimp only
    repeat' split
    all_goals rfl

omit [Crypto] in
theorem foldl_logBook {f : StateDB → Address → StateDB} (round : ∀ s a, (f s a).logBook = s.logBook) (addrs : List Address)
    (s : StateDB) :
    (addrs.foldl f s).logBook = s.logBook := by
  induction addrs generalizing s with
  | nil => rfl
  | cons a addrs ih => rw [List.foldl_cons, ih, round]

theorem Tracks.call (tracks : Tracks e base s) (valid : Valid s) {op : Op} (result : op.apply s = .ok t) :
    ∃ base', Tracks (e.next op) base' t := by
  have bounded : ∀ r ∈ s.validRevisions, r.journalIndex ≤ s.journal.entries.length :=
    fun r member => (valid.ordered.bounded r member).2
  cases kind : op.quiet with
  | true =>
    have same : e.next op = e := by
      cases op <;> first
        | rfl
        | cases kind
    rw [same]
    exact ⟨base, tracks.silent bounded (Op.silent kind result)⟩
  | false =>
    cases op <;> cases kind
    case false.addLog.refl log =>
      cases result
      exact ⟨base, tracks.addLog bounded log⟩
    case false.prepare.refl thash bhash ti =>
      cases result
      exact ⟨base, tracks.prepare thash bhash ti⟩
    case false.snapshot.refl =>
      cases result
      exact ⟨base, tracks.snapshot⟩
    case false.revertToSnapshot.refl revid =>
      obtain ⟨older, r, newer, split, rfl⟩ := revertToSnapshot_member result
      exact ⟨base, tracks.revert valid split result⟩
    case false.finalise.refl deleteEmptyObjects =>
      cases result
      exact ⟨_, tracks.settled (foldl_logBook (finaliseObject_logBook deleteEmptyObjects) _ s) rfl rfl⟩
    case false.commit.refl deleteEmptyObjects =>
      cases result
      exact ⟨_, tracks.settled (foldl_logBook (commitObject_logBook deleteEmptyObjects) _ s.markDirties) rfl rfl⟩
    case false.reset.refl trie =>
      cases result
      have nextId : s.nextRevisionId = e.nextId := congrArg LogBook.nextRevisionId tracks.book
      exact ⟨0, congrArg (LogBook.mk (of []) 0 _ _ _) nextId, rfl, ⟨[], rfl, rfl⟩, rfl⟩

def after (ops : List Op) : Emission := ops.foldl next {}

theorem tracks_run {ops : List Op} (tracks : Tracks e base s) (valid : Valid s) (result : Op.applyAll ops s = .ok t) :
    ∃ base', Tracks (ops.foldl next e) base' t := by
  induction ops generalizing e base s with
  | nil =>
    cases result
    exact ⟨base, tracks⟩
  | cons op ops ih =>
    unfold Op.applyAll at result
    split at result
    · next mid stepped =>
      obtain ⟨base', later⟩ := tracks.call valid stepped
      exact ih later (Op.valid valid stepped) result
    · cases result

omit [Crypto] in
theorem tracks_new (trie : Address → Option Account) (codes : Hash → Option Bytes) : Tracks {} 0 (StateDB.new trie codes) :=
  ⟨rfl, rfl, ⟨[], rfl, rfl⟩, rfl⟩

end Runs

end Emission

end CuteEVM
