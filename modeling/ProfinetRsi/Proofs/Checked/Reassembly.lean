import ProfinetRsi.Proofs.Checked.Payload
import ProfinetRsi.Proofs.Reassembly.Stream

/-!
# `ProfinetRsi.Proofs.Checked.Reassembly`: reassembly on a machine

A machine counts arrivals and bytes in words, and finds a message at the position that its
index names. `process?` has these as steps that may go wrong. `Bounded` says how far a table
can have got after so many arrivals with so many bytes, and what it then holds.

* `process?_eq`: nothing goes wrong as long as arrivals and bytes are words.
* `bounded_process`: what one arrival adds.
* `fits_process`: a message that is shown is one that a machine can hold.
-/

set_option autoImplicit false

namespace ProfinetRsi

/-- The fragments lie within a payload of `length` bytes. -/
def FragmentRecord.Within (fragments : List FragmentRecord) (length : Nat) : Prop :=
  ∀ fragment ∈ fragments, fragment.offset + fragment.length ≤ length

/-- One more fragment lies within the payload that it is added to. -/
theorem PendingMessage.within_add {pending : PendingMessage}
    (within : FragmentRecord.Within pending.fragments pending.data.length) (id : FragmentId)
    (payload : Bytes) :
    FragmentRecord.Within (pending.add id payload).fragments (pending.add id payload).data.length := by
  intro fragment hfragment
  have hlength : (pending.add id payload).data.length = pending.data.length + payload.length :=
    List.length_append
  rcases List.mem_append.mp hfragment with hold | hnew
  · have hend := within fragment hold
    omega
  · rw [List.mem_singleton.mp hnew, hlength]

namespace ReassemblyTable

/-! ### The table on a machine -/

/-- What the table tells a fragment about its message, which is looked up at the position
that the index names. -/
def outcome? (table : ReassemblyTable) (key : StreamKey) (id : FragmentId) : Option Outcome :=
  match table.index.get? (id, key) with
  | none => some .pending
  | some position => do
    let message ← table.messages[position]?
    if message.completedBy = id then return .reassembled message
    else return .reassembledIn message.completedBy.frame message.data.length

/-- The table with one more fragment, and with one more message if the fragment is the last
one. -/
def add? (table : ReassemblyTable) (arrival : Arrival) : Option ReassemblyTable := do
  let fragmentsAdded ← Word.add? table.stats.fragmentsAdded 1
  let fragmentBytes ← Word.add? table.stats.fragmentBytes arrival.payload.length
  let pending := ((table.pending.get? arrival.key).getD {}).add arrival.id arrival.payload
  let table := { table with
    pending := table.pending.set arrival.key pending
    stats := { table.stats with fragmentsAdded, fragmentBytes } }
  if arrival.moreFragments then return table
  let reassembliesCompleted ← Word.add? table.stats.reassembliesCompleted 1
  return { table.complete arrival.key arrival.id pending with
    stats := { table.stats with reassembliesCompleted } }

/-- Handles one payload. -/
def process? (table : ReassemblyTable) (arrival : Arrival) : Option (Outcome × ReassemblyTable) :=
  if table.isStandalone arrival then
    if arrival.visited then some (.standalone, table)
    else do
      let standalonePdus ← Word.add? table.stats.standalonePdus 1
      return (.standalone, { table with stats := { table.stats with standalonePdus } })
  else if arrival.visited then do
    let revisits ← Word.add? table.stats.revisits 1
    let outcome ← table.outcome? arrival.key arrival.id
    return (outcome, { table with stats := { table.stats with revisits } })
  else do
    let table ← table.add? arrival
    let outcome ← table.outcome? arrival.key arrival.id
    return (outcome, table)

/-! ### What a table holds -/

/-- What a table holds after at most `arrivals` arrivals with `bytes` bytes. -/
structure Bounded (table : ReassemblyTable) (arrivals bytes : Nat) : Prop where
  standalonePdus : table.stats.standalonePdus ≤ arrivals
  fragmentsAdded : table.stats.fragmentsAdded ≤ arrivals
  fragmentBytes : table.stats.fragmentBytes ≤ bytes
  reassembliesCompleted : table.stats.reassembliesCompleted ≤ arrivals
  revisits : table.stats.revisits ≤ arrivals
  pending : ∀ key pending, table.pending.get? key = some pending →
    pending.data.length ≤ bytes ∧ FragmentRecord.Within pending.fragments pending.data.length
  messages : ∀ message ∈ table.messages,
    message.data.length ≤ bytes ∧ FragmentRecord.Within message.fragments message.data.length

theorem bounded_empty : ({} : ReassemblyTable).Bounded 0 0 where
  standalonePdus := Nat.le_refl 0
  fragmentsAdded := Nat.le_refl 0
  fragmentBytes := Nat.le_refl 0
  reassembliesCompleted := Nat.le_refl 0
  revisits := Nat.le_refl 0
  pending _ _ h := by cases h
  messages _ h := by cases h

variable {table : ReassemblyTable} {arrivals bytes : Nat}

/-- More arrivals and more bytes are bounds, too. -/
theorem Bounded.mono (bounded : table.Bounded arrivals bytes) {moreArrivals moreBytes : Nat}
    (harrivals : arrivals ≤ moreArrivals) (hbytes : bytes ≤ moreBytes) :
    table.Bounded moreArrivals moreBytes where
  standalonePdus := Nat.le_trans bounded.standalonePdus harrivals
  fragmentsAdded := Nat.le_trans bounded.fragmentsAdded harrivals
  fragmentBytes := Nat.le_trans bounded.fragmentBytes hbytes
  reassembliesCompleted := Nat.le_trans bounded.reassembliesCompleted harrivals
  revisits := Nat.le_trans bounded.revisits harrivals
  pending key pending h :=
    ⟨Nat.le_trans (bounded.pending key pending h).1 hbytes, (bounded.pending key pending h).2⟩
  messages message h :=
    ⟨Nat.le_trans (bounded.messages message h).1 hbytes, (bounded.messages message h).2⟩

/-- A message that the table holds is one that a machine can hold. -/
theorem Bounded.fits (bounded : table.Bounded arrivals bytes) (hbytes : bytes < Word.bound)
    {message : Message} (h : message ∈ table.messages) : message.Fits := by
  obtain ⟨hlength, hwithin⟩ := bounded.messages message h
  refine ⟨by omega, fun fragment hfragment => ?_⟩
  have hend := hwithin fragment hfragment
  omega

variable (arrival : Arrival)

/-- The pending message with one more payload is within the bytes that have arrived. -/
theorem Bounded.grown (bounded : table.Bounded arrivals bytes) :
    let pending := ((table.pending.get? arrival.key).getD {}).add arrival.id arrival.payload
    pending.data.length ≤ bytes + arrival.payload.length
      ∧ FragmentRecord.Within pending.fragments pending.data.length := by
  intro pending
  have hlength : pending.data.length
      = ((table.pending.get? arrival.key).getD {}).data.length + arrival.payload.length :=
    List.length_append
  cases hbusy : table.pending.get? arrival.key with
  | none =>
      rw [hbusy] at hlength
      simp only [Option.getD_none, List.length_nil] at hlength
      refine ⟨by omega, ?_⟩
      simp only [pending, hbusy, Option.getD_none]
      exact PendingMessage.within_add (fun _ h => by cases h) _ _
  | some waiting =>
      obtain ⟨hbytes, hwithin⟩ := bounded.pending _ _ hbusy
      rw [hbusy] at hlength
      simp only [Option.getD_some] at hlength
      refine ⟨by omega, ?_⟩
      simp only [pending, hbusy, Option.getD_some]
      exact PendingMessage.within_add hwithin _ _

/-- What one more fragment adds. -/
theorem bounded_add (bounded : table.Bounded arrivals bytes) :
    (table.add arrival).Bounded (arrivals + 1) (bytes + arrival.payload.length) := by
  obtain ⟨hlength, hwithin⟩ := bounded.grown arrival
  have hmore := bounded.mono (Nat.le_add_right arrivals 1)
    (Nat.le_add_right bytes arrival.payload.length)
  rw [add_eq_waiting]
  have hwaiting : (table.waiting arrival).Bounded (arrivals + 1)
      (bytes + arrival.payload.length) := { hmore with
    fragmentsAdded := Nat.succ_le_succ bounded.fragmentsAdded
    fragmentBytes := Nat.add_le_add_right bounded.fragmentBytes _
    pending := fun key pending h => by
      simp only [waiting, KeyedList.get?_set] at h
      split at h
      · cases h
        exact ⟨hlength, hwithin⟩
      · exact hmore.pending key pending h }
  split
  · exact hwaiting
  -- The last fragment moves what was pending to the messages, and the bytes with it.
  · refine { hwaiting with
      reassembliesCompleted := Nat.succ_le_succ bounded.reassembliesCompleted
      pending := fun key pending h => ?_
      messages := fun message h => ?_ }
    · simp only [complete, KeyedList.get?_erase] at h
      split at h
      · cases h
      · exact hwaiting.pending key pending h
    · rcases List.mem_append.mp h with hold | hnew
      · exact hwaiting.messages message hold
      · rw [List.mem_singleton.mp hnew]
        exact ⟨hlength, hwithin⟩

/-- What one more arrival adds. -/
theorem bounded_process (bounded : table.Bounded arrivals bytes) :
    (table.process arrival).2.Bounded (arrivals + 1) (bytes + arrival.payload.length) := by
  have hmore := bounded.mono (Nat.le_add_right arrivals 1)
    (Nat.le_add_right bytes arrival.payload.length)
  unfold process
  split
  · split
    · exact hmore
    · exact { hmore with standalonePdus := Nat.succ_le_succ bounded.standalonePdus }
  · split
    · exact { hmore with revisits := Nat.succ_le_succ bounded.revisits }
    · exact bounded_add arrival bounded

/-! ### Nothing goes wrong -/

/-- The index of a valid table names messages only. -/
theorem outcome?_eq (valid : table.Valid) (key : StreamKey) (id : FragmentId) :
    table.outcome? key id = some (table.outcome key id) := by
  unfold outcome? outcome messageOf?
  cases hindex : table.index.get? (id, key) with
  | none => rfl
  | some position =>
      -- Here the two differ: one looks the position up, the other one relies on it.
      have hlt := valid id key position hindex
      simp only [Option.bind_some, List.getElem?_eq_getElem hlt, Option.bind_eq_bind]
      split <;> rfl

theorem add?_eq (bounded : table.Bounded arrivals bytes) (harrivals : arrivals + 1 < Word.bound)
    (hbytes : bytes + arrival.payload.length < Word.bound) :
    table.add? arrival = some (table.add arrival) := by
  have hfragments := bounded.fragmentsAdded
  have hfragmentBytes := bounded.fragmentBytes
  have hcompleted := bounded.reassembliesCompleted
  unfold add? add
  simp only [Word.add?_eq (show table.stats.fragmentsAdded + 1 < Word.bound by omega),
    Word.add?_eq (show table.stats.fragmentBytes + arrival.payload.length < Word.bound by omega),
    Word.add?_eq (show table.stats.reassembliesCompleted + 1 < Word.bound by omega),
    Option.bind_eq_bind, Option.bind_some]
  split <;> rfl

/-- **Nothing goes wrong in reassembly** as long as arrivals and bytes are words. -/
theorem process?_eq (valid : table.Valid) (bounded : table.Bounded arrivals bytes)
    (harrivals : arrivals + 1 < Word.bound)
    (hbytes : bytes + arrival.payload.length < Word.bound) :
    table.process? arrival = some (table.process arrival) := by
  have hstandalone := bounded.standalonePdus
  have hrevisits := bounded.revisits
  unfold process? process
  rw [add?_eq arrival bounded harrivals hbytes, outcome?_eq valid,
    Word.add?_eq (show table.stats.standalonePdus + 1 < Word.bound by omega),
    Word.add?_eq (show table.stats.revisits + 1 < Word.bound by omega)]
  simp only [Option.bind_eq_bind, Option.bind_some, outcome?_eq (valid_add valid arrival)]
  split
  · split <;> rfl
  · split <;> rfl

/-- The outcome of an arrival shows a message that a machine can hold. -/
theorem fits_process (bounded : table.Bounded arrivals bytes)
    (hbytes : bytes + arrival.payload.length < Word.bound) :
    (table.process arrival).1.Fits := by
  have houtcome : ∀ {table : ReassemblyTable} {arrivals bytes : Nat},
      table.Bounded arrivals bytes → bytes < Word.bound → ∀ key id, (table.outcome key id).Fits := by
    intro table arrivals bytes bounded hbytes key id
    unfold outcome
    cases hmessage : table.messageOf? key id with
    | none => trivial
    | some message =>
        obtain ⟨position, -, hposition⟩ := Option.bind_eq_some_iff.mp hmessage
        dsimp only
        split
        · exact bounded.fits hbytes (List.mem_of_getElem? hposition)
        · trivial
  unfold process
  split
  · trivial
  · split
    · exact houtcome bounded (by omega) _ _
    · exact houtcome (bounded_add arrival bounded) hbytes _ _

end ReassemblyTable

end ProfinetRsi
