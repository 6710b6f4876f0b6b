import CuteEVM.State.Flush

set_option autoImplicit false

-- What the operations on accounts do, without objects, caches and tries: a book says which accounts there are and which
-- of them have been marked since the journal was last dropped.

namespace CuteEVM

variable [Crypto]

structure Book where
  accounts : Address → Option AccountView
  marked : Address → Bool
  refund : Nat
  logs : Hash → List Log
  preimages : Hash → Option Bytes
  codes : Hash → Option Bytes

def StateDB.book (s : StateDB) : Book where
  accounts := s.world.accounts
  marked := s.marked
  refund := s.refund
  logs := s.logs
  preimages := s.preimages
  codes := s.codes

namespace Book

def mark (book : Book) (a : Address) : Book := { book with marked := Function.update book.marked a true }

def put (book : Book) (a : Address) (view : AccountView) : Book :=
  { book.mark a with accounts := Function.update book.accounts a (some view) }

def obtain (book : Book) (a : Address) : AccountView × Book :=
  match book.accounts a with
  | some view => (view, book)
  | none => (.fresh, book.put a .fresh)

def addBalance (book : Book) (a : Address) (amount : Int) : Book :=
  let (view, book) := book.obtain a
  if amount = 0 then
    if view.empty then book.mark a else book
  else book.put a { view with balance := view.balance + amount }

def subBalance (book : Book) (a : Address) (amount : Int) : Book :=
  let (view, book) := book.obtain a
  if amount = 0 then book
  else book.put a { view with balance := view.balance - amount }

def setBalance (book : Book) (a : Address) (amount : Int) : Book :=
  let (view, book) := book.obtain a
  book.put a { view with balance := amount }

def setNonce (book : Book) (a : Address) (nonce : Nat) : Book :=
  let (view, book) := book.obtain a
  book.put a { view with nonce := nonce }

def setCode (book : Book) (a : Address) (code : Bytes) : Book :=
  let (view, book) := book.obtain a
  book.put a { view with code := code, codeHash := keccak256 code }

def setState (book : Book) (a : Address) (key value : Hash) : Book :=
  let (view, book) := book.obtain a
  if view.storage key = value then book
  else book.put a { view with storage := Function.update view.storage key value }

def createAccount (book : Book) (a : Address) : Book :=
  match book.accounts a with
  | some view =>
    { book with accounts := Function.update book.accounts a (some { AccountView.fresh with balance := view.balance }) }
  | none => book.put a .fresh

def suicide (book : Book) (a : Address) : Book :=
  match book.accounts a with
  | some view => book.put a { view with suicided := true, balance := 0 }
  | none => book

def addRefund (book : Book) (gas : Nat) : Book := { book with refund := (book.refund + gas) % 2 ^ 64 }

def subRefund (book : Book) (gas : Nat) : Except Panic Book :=
  if book.refund < gas then .error .refundBelowZero
  else .ok { book with refund := book.refund - gas }

def finalise (book : Book) (deleteEmptyObjects : Bool) : Book :=
  { book with
    accounts := fun a => if book.marked a then (book.accounts a).bind (·.finalised deleteEmptyObjects) else book.accounts a
    marked := fun _ => false
    refund := 0 }

def observe (book : Book) : Observation :=
  World.observe book.codes
    { accounts := book.accounts, pending := fun _ => false, refund := book.refund, logs := book.logs, logSize := 0,
      preimages := book.preimages }

end Book

theorem StateDB.observe_book (s : StateDB) : s.observe = s.book.observe := observe_world s

section Refinement

variable {s t : StateDB} {a : Address} {o : StateObject}

theorem Reads.book (reads : Reads s t) : t.book = s.book := by
  have world := reads.world
  simp only [StateDB.world, World.mk.injEq] at world
  obtain ⟨accounts, -, refund, logs, -, preimages⟩ := world
  have marked : t.marked = s.marked := by
    funext a
    simp only [StateDB.marked, reads.journal]
  simp only [StateDB.book, Book.mk.injEq, StateDB.world]
  exact ⟨accounts, marked, refund, logs, preimages, reads.codes⟩

omit [Crypto] in
theorem book_marked_append (s : StateDB) {entry : JournalEntry} (dirtied : entry.dirtied = some a) :
    (s.append entry).marked = Function.update s.marked a true := by
  funext b
  rw [s.marked_append, dirtied]
  by_cases same : b = a
  · simp [same]
  · simp [same, Ne.symm same]

theorem change_book {o' : StateObject} {entry : JournalEntry} (live : t.live a = some o) (present : o.deleted = false)
    (address : o'.address = a) (here : o'.deleted = false) (dirtied : entry.dirtied = some a) :
    ((t.append entry).setStateObject o').book = t.book.put a (o'.view t.codes) := by
  have world := world_change entry live present address here
  have accounts : ((t.append entry).setStateObject o').world.accounts =
      Function.update t.world.accounts a (some (o'.view t.codes)) := by rw [world]; rfl
  simp only [StateDB.book, Book.put, Book.mark, Book.mk.injEq, accounts]
  exact ⟨trivial, book_marked_append t dirtied, rfl, rfl, rfl, rfl⟩

theorem create_book (missing : s.lookup a = none) :
    ((s.append (.createObjectChange a)).setStateObject (freshObject a)).book = s.book.put a .fresh := by
  simp only [StateDB.book, Book.put, Book.mark, Book.mk.injEq, accounts_create missing]
  exact ⟨trivial, book_marked_append s rfl, rfl, rfl, rfl, rfl⟩

theorem obtain_book (valid : Valid s) (a : Address) :
    ∃ o t, s.getOrNewStateObject a = (o, t) ∧ Obtained s a o t ∧ s.book.obtain a = (o.view t.codes, t.book) := by
  obtain ⟨o, t, result, obtained⟩ := getOrNewStateObject_obtained valid a
  refine ⟨o, t, result, obtained, ?_⟩
  rcases obtained.origin with ⟨found, reads⟩ | ⟨missing, rfl⟩
  · have seen : s.book.accounts a = some (o.view s.codes) := by simp only [StateDB.book, StateDB.world, found, Option.map_some]
    simp only [Book.obtain, seen, reads.book, reads.codes]
  · have seen : s.book.accounts a = none := by simp only [StateDB.book, StateDB.world, missing, Option.map_none]
    simp only [StateDB.getOrNewStateObject, s.getStateObject_eq, missing, StateDB.load_of_missing missing,
      createObject_missing missing, Prod.mk.injEq, true_and] at result
    rw [← result, create_book missing, freshObject_view]
    simp only [Book.obtain, seen]

theorem touch_book (t : StateDB) (address : o.address = a) : (t.touch o).book = t.book.mark a := by
  have marked : (t.touch o).marked = Function.update t.marked a true := by
    funext b
    rw [t.marked_touch, address]
    by_cases same : b = a <;> simp [same]
  simp only [StateDB.book, Book.mark, Book.mk.injEq, touch_world, marked, true_and]
  unfold StateDB.touch
  split <;> exact ⟨rfl, rfl, rfl, rfl⟩

theorem setObjectBalance_book (obtained : Obtained s a o t) (amount : Int) :
    (t.setObjectBalance o amount).book = t.book.put a { o.view t.codes with balance := amount } := by
  unfold StateDB.setObjectBalance
  rw [obtained.address]
  exact change_book obtained.live obtained.present obtained.address obtained.present rfl

theorem addBalance_book (valid : Valid s) (a : Address) (amount : Int) :
    (s.addBalance a amount).book = s.book.addBalance a amount := by
  obtain ⟨o, t, result, obtained, opened⟩ := obtain_book valid a
  simp only [StateDB.addBalance, result, Book.addBalance, opened, StateObject.view_empty]
  split
  · split
    · exact touch_book t obtained.address
    · rfl
  · exact setObjectBalance_book obtained _

theorem subBalance_book (valid : Valid s) (a : Address) (amount : Int) :
    (s.subBalance a amount).book = s.book.subBalance a amount := by
  obtain ⟨o, t, result, obtained, opened⟩ := obtain_book valid a
  simp only [StateDB.subBalance, result, Book.subBalance, opened]
  split
  · rfl
  · exact setObjectBalance_book obtained _

theorem setBalance_book (valid : Valid s) (a : Address) (amount : Int) :
    (s.setBalance a amount).book = s.book.setBalance a amount := by
  obtain ⟨o, t, result, obtained, opened⟩ := obtain_book valid a
  simp only [StateDB.setBalance, result, Book.setBalance, opened]
  exact setObjectBalance_book obtained amount

theorem setNonce_book (valid : Valid s) (a : Address) (nonce : Nat) : (s.setNonce a nonce).book = s.book.setNonce a nonce := by
  obtain ⟨o, t, result, obtained, opened⟩ := obtain_book valid a
  simp only [StateDB.setNonce, result, Book.setNonce, opened]
  exact change_book obtained.live obtained.present obtained.address obtained.present rfl

theorem setCode_view (codes : Hash → Option Bytes) (o : StateObject) (code : Bytes) :
    ((o.loadCode codes).2.setCode (keccak256 code) code).view codes =
      { o.view codes with code := code, codeHash := keccak256 code } := by
  have seen := (o.loadCode_cached codes).view
  simp only [StateObject.view, AccountView.mk.injEq] at seen
  obtain ⟨nonce, balance, -, -, storage, committed, suicided⟩ := seen
  have resolved : resolveCode codes code (keccak256 code) = code := by
    by_cases empty : code = []
    · simp [resolveCode, empty, emptyCodeHash]
    · simp [resolveCode, empty]
  simp only [StateObject.view, AccountView.mk.injEq]
  exact ⟨nonce, balance, rfl, resolved, storage, committed, suicided⟩

theorem setCode_book (valid : Valid s) (a : Address) (code : Bytes) : (s.setCode a code).book = s.book.setCode a code := by
  obtain ⟨o, t, result, obtained, opened⟩ := obtain_book valid a
  have cached := o.loadCode_cached t.codes
  have home : ((o.loadCode t.codes).2.setCode (keccak256 code) code).address = a := cached.address.trans obtained.address
  have here : ((o.loadCode t.codes).2.setCode (keccak256 code) code).deleted = false := cached.deleted.trans obtained.present
  simp only [StateDB.setCode, result, Book.setCode, opened]
  rw [change_book obtained.live obtained.present home here rfl, setCode_view]

theorem setState_book (valid : Valid s) (a : Address) (key value : Hash) :
    (s.setState a key value).book = s.book.setState a key value := by
  obtain ⟨o, t, result, obtained, opened⟩ := obtain_book valid a
  have cached := o.getState_cached t.codes key
  obtain ⟨loaded, live, home, here⟩ := obtained.cache cached
  simp only [StateDB.setState, result, Book.setState, opened, o.getState_value t.codes]
  split
  · exact loaded.book
  · have home' : ((o.getState key).2.setState key value).address = a := home
    rw [change_book live here home' here rfl, loaded.book, StateObject.setState_view]
    change t.book.put a { (o.getState key).2.view t.codes with
      storage := Function.update ((o.getState key).2.view t.codes).storage key value } = _
    rw [cached.view]

theorem createAccount_book (valid : Valid s) (a : Address) : (s.createAccount a).book = s.book.createAccount a := by
  cases found : s.lookup a with
  | none =>
    have seen : s.book.accounts a = none := by simp only [StateDB.book, StateDB.world, found, Option.map_none]
    simp only [StateDB.createAccount, createObject_missing found, Book.createAccount, seen]
    exact create_book found
  | some prev =>
    have loaded := Reads.load valid a
    have present := (valid.kept.objects.address_of_lookup found).2.1
    have seen : s.book.accounts a = some (prev.view s.codes) := by simp only [StateDB.book, StateDB.world, found, Option.map_some]
    have world := world_change (.resetObjectChange prev) (StateDB.live_load found) present
      (show ((freshObject a).setBalance prev.data.balance).address = a from rfl) rfl
    have fresh : ((freshObject a).setBalance prev.data.balance).view (s.load a).codes =
        { AccountView.fresh with balance := prev.data.balance } := by
      rw [← freshObject_view (s.load a).codes a]
      rfl
    rw [createAccount_found found]
    simp only [Book.createAccount, seen]
    rw [← loaded.book]
    simp only [StateDB.book, Book.mk.injEq, world, World.setAccount, fresh]
    refine ⟨rfl, ?_, rfl, rfl, rfl, rfl⟩
    funext b
    rw [StateDB.marked_setStateObject, StateDB.marked_append]
    simp [JournalEntry.dirtied]

theorem suicide_book (valid : Valid s) (a : Address) : (s.suicide a).2.book = s.book.suicide a := by
  have loaded := Reads.load valid a
  cases found : s.lookup a with
  | none =>
    have seen : s.book.accounts a = none := by simp only [StateDB.book, StateDB.world, found, Option.map_none]
    simp only [StateDB.suicide, s.getStateObject_eq, found, Book.suicide, seen]
    exact loaded.book
  | some o =>
    obtain ⟨address, present, -⟩ := valid.kept.objects.address_of_lookup found
    have seen : s.book.accounts a = some (o.view s.codes) := by simp only [StateDB.book, StateDB.world, found, Option.map_some]
    simp only [StateDB.suicide, s.getStateObject_eq, found, Book.suicide, seen]
    rw [change_book (StateDB.live_load found) present (show (o.markSuicided.setBalance 0).address = a from address) present rfl,
      loaded.book, loaded.codes]
    rfl

theorem finalise_book (valid : Valid s) (grounded : Grounded s) (deleteEmptyObjects : Bool) :
    (s.finalise deleteEmptyObjects).book = s.book.finalise deleteEmptyObjects := by
  have loop : ∀ (addrs : List Address) (t : StateDB),
      (addrs.foldl (StateDB.finaliseObject deleteEmptyObjects) t).logs = t.logs ∧
        (addrs.foldl (StateDB.finaliseObject deleteEmptyObjects) t).preimages = t.preimages := by
    intro addrs
    induction addrs with
    | nil => exact fun _ => ⟨rfl, rfl⟩
    | cons addr rest ih =>
      intro t
      have round : (t.finaliseObject deleteEmptyObjects addr).logs = t.logs ∧
          (t.finaliseObject deleteEmptyObjects addr).preimages = t.preimages := by
        unfold StateDB.finaliseObject
        split
        · exact ⟨rfl, rfl⟩
        · dsimp only
          split <;> exact ⟨rfl, rfl⟩
      exact ⟨(ih _).1.trans round.1, (ih _).2.trans round.2⟩
  obtain ⟨logs, preimages⟩ := loop s.journal.dirties.keys s
  have accounts : (s.finalise deleteEmptyObjects).world.accounts = (s.book.finalise deleteEmptyObjects).accounts := by
    funext a
    show _ = if s.marked a then (s.world.accounts a).bind (·.finalised deleteEmptyObjects) else s.world.accounts a
    split
    · next marked =>
        obtain ⟨o, live⟩ := Option.isSome_iff_exists.mp (grounded a marked)
        rw [(finalise_marked valid deleteEmptyObjects marked live).1,
          StateDB.accounts_of_live live (valid.present_of_dirty marked o live)]
        rfl
    · next unmarked => exact (finalise_idle valid deleteEmptyObjects (.inl (Bool.eq_false_iff.mpr unmarked))).1
  simp only [StateDB.book, accounts, Book.finalise, Book.mk.injEq, true_and]
  exact ⟨rfl, rfl, logs, preimages, finalise_codes s deleteEmptyObjects⟩

-- The reads, the operations on accounts and the refund counter, and `Finalise`.
def Op.booked : Op → Bool
  | .addLog _ | .addPreimage _ _ | .prepare _ _ _ | .snapshot | .revertToSnapshot _ | .commit _ | .reset _ => false
  | _ => true

def Book.apply (book : Book) : Op → Except Panic Book
  | .addBalance a amount => .ok (book.addBalance a amount)
  | .subBalance a amount => .ok (book.subBalance a amount)
  | .setBalance a amount => .ok (book.setBalance a amount)
  | .setNonce a nonce => .ok (book.setNonce a nonce)
  | .setCode a code => .ok (book.setCode a code)
  | .setState a key value => .ok (book.setState a key value)
  | .createAccount a => .ok (book.createAccount a)
  | .suicide a => .ok (book.suicide a)
  | .addRefund gas => .ok (book.addRefund gas)
  | .subRefund gas => book.subRefund gas
  | .finalise deleteEmptyObjects => .ok (book.finalise deleteEmptyObjects)
  | _ => .ok book

theorem Op.apply_book (valid : Valid s) (grounded : Grounded s) {op : Op} (booked : op.booked = true) :
    (op.apply s).map StateDB.book = s.book.apply op := by
  have read : ∀ {t : StateDB}, Reads s t → (Except.ok t : Except Panic StateDB).map StateDB.book = .ok s.book :=
    fun reads => congrArg Except.ok reads.book
  cases op with
  | addLog _ | addPreimage _ _ | prepare _ _ _ | snapshot | revertToSnapshot _ | commit _ | reset _ => simp [Op.booked] at booked
  | exist a => exact read (StateDB.exist_reads valid a)
  | empty a => exact read (StateDB.empty_reads valid a)
  | getBalance a => exact read (StateDB.getBalance_reads valid a)
  | getNonce a => exact read (StateDB.getNonce_reads valid a)
  | getCode a => exact read (StateDB.getCode_reads valid a)
  | getCodeSize a => exact read (StateDB.getCodeSize_reads valid a)
  | getCodeHash a => exact read (StateDB.getCodeHash_reads valid a)
  | getState a key => exact read (StateDB.getState_reads valid a key)
  | getCommittedState a key => exact read (StateDB.getCommittedState_reads valid a key)
  | hasSuicided a => exact read (StateDB.hasSuicided_reads valid a)
  | addBalance a amount => exact congrArg Except.ok (addBalance_book valid a amount)
  | subBalance a amount => exact congrArg Except.ok (subBalance_book valid a amount)
  | setBalance a amount => exact congrArg Except.ok (setBalance_book valid a amount)
  | setNonce a nonce => exact congrArg Except.ok (setNonce_book valid a nonce)
  | setCode a code => exact congrArg Except.ok (setCode_book valid a code)
  | setState a key value => exact congrArg Except.ok (setState_book valid a key value)
  | createAccount a => exact congrArg Except.ok (createAccount_book valid a)
  | suicide a => exact congrArg Except.ok (suicide_book valid a)
  | addRefund gas =>
    refine congrArg Except.ok ?_
    have marked : (s.addRefund gas).marked = s.marked := by
      funext a
      exact (s.marked_append (.refundChange s.refund) a).trans (by simp [JournalEntry.dirtied])
    simp only [StateDB.book, Book.addRefund, marked]
    rfl
  | subRefund gas =>
    simp only [Op.apply, StateDB.subRefund, Book.apply, Book.subRefund]
    split
    · next below => rw [if_pos (show s.book.refund < gas from below)]; rfl
    · next enough =>
        rw [if_neg (show ¬ s.book.refund < gas from enough)]
        refine congrArg Except.ok ?_
        have marked : (s.append (.refundChange s.refund)).marked = s.marked := by
          funext a
          rw [s.marked_append]
          simp [JournalEntry.dirtied]
        exact congrArg (fun marks => { s.book with marked := marks, refund := s.refund - gas }) marked
  | finalise deleteEmptyObjects => exact congrArg Except.ok (finalise_book valid grounded deleteEmptyObjects)

end Refinement

end CuteEVM
