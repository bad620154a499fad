import Mathlib.Logic.Function.Basic
import Mathlib.Tactic.Common
import Mathlib.Tactic.SplitIfs
import Qmk.Crc.Crc8

/-!
# Remote procedure calls between split halves

The info block of a call brings the transaction and the sizes of its data.  The slave takes the
sizes over when the block arrives, and looks at its checksum when the call is executed.
-/

namespace Qmk.SplitRpc

abbrev Byte := BitVec 8

/-! ## The transaction table -/

inductive Callback
  | rpcInfo
  | rpcExec
  /-- Registered for a transaction of the keyboard or the user. -/
  | user (id : Nat)
  /-- Of the core, with nothing to do with these calls. -/
  | core
  deriving DecidableEq

/-- `split_transaction_desc_t` -/
structure Desc where
  initiator2targetSize : Nat
  initiator2targetOffset : Nat
  target2initiatorSize : Nat
  target2initiatorOffset : Nat
  slaveCallback : Option Callback

inductive RpcId
  | putRpcInfo
  | putRpcReqData
  | executeRpc
  | getRpcRespData
  deriving DecidableEq

structure Config where
  /-- `RPC_M2S_BUFFER_SIZE` -/
  m2sBufferSize : Nat
  /-- `RPC_S2M_BUFFER_SIZE` -/
  s2mBufferSize : Nat
  /-- The enumerator `PUT_RPC_INFO`, which the other three follow. -/
  putRpcInfo : Nat
  /-- `NUM_TOTAL_TRANSACTIONS` -/
  numTotal : Nat
  /-- `crc8`, which is declared weak. -/
  crc8 : List Byte → Byte
  /-- The other entries of the table, and what lies around it. -/
  table : Int → Desc
  /-- The calls of `transaction_register_rpc`. -/
  registrations : List Nat
  registrations_lt : ∀ id ∈ registrations, id < numTotal
  /-- What the callback of a transaction makes of the request data. -/
  respond : Nat → List Byte → Nat → Byte

variable (cfg : Config)

def Config.idOf : RpcId → Nat
  | .putRpcInfo => cfg.putRpcInfo
  | .putRpcReqData => cfg.putRpcInfo + 1
  | .executeRpc => cfg.putRpcInfo + 2
  | .getRpcRespData => cfg.putRpcInfo + 3

/-- Offsets are from `rpc_info` on, of which the buffers are behind. -/
def m2sOffset : Nat := 4

def Config.s2mOffset : Nat := m2sOffset + cfg.m2sBufferSize

def Config.desc : RpcId → Desc
  | .putRpcInfo => ⟨4, 0, 0, 0, some .rpcInfo⟩
  | .putRpcReqData => ⟨cfg.m2sBufferSize, m2sOffset, 0, 0, none⟩
  | .executeRpc => ⟨1, 1, 0, 0, some .rpcExec⟩
  | .getRpcRespData => ⟨0, 0, cfg.s2mBufferSize, cfg.s2mOffset, none⟩

def splitTransactionTable (id : Int) : Desc :=
  if id = cfg.idOf .putRpcInfo then cfg.desc .putRpcInfo
  else if id = cfg.idOf .putRpcReqData then cfg.desc .putRpcReqData
  else if id = cfg.idOf .executeRpc then cfg.desc .executeRpc
  else if id = cfg.idOf .getRpcRespData then cfg.desc .getRpcRespData
  else cfg.table id

def transactionRegisterRpc (table : Int → Desc) (id : Nat) : Int → Desc :=
  if id ≤ cfg.idOf .getRpcRespData then table
  else Function.update table id
    { table id with
      slaveCallback := some (.user id)
      initiator2targetOffset := m2sOffset
      target2initiatorOffset := cfg.s2mOffset }

/-! ## The slave -/

structure Slave where
  table : Int → Desc
  shmem : Nat → Byte
  /-- Where the callback of a call indexed the table, last first. -/
  indexed : List Int
  /-- What was sent to the master, last first. -/
  replies : List (List Byte)

def Slave.initial : Slave where
  table := cfg.registrations.foldl (transactionRegisterRpc cfg) (splitTransactionTable cfg)
  shmem := fun _ => 0
  indexed := []
  replies := []

/-- `rpc_sync_info_t` -/
structure Info where
  checksum : Byte
  transactionId : Byte
  m2sLength : Byte
  s2mLength : Byte
  deriving DecidableEq

def Info.ofBytes (bytes : Nat → Byte) : Info := ⟨bytes 0, bytes 1, bytes 2, bytes 3⟩

def Info.payload (info : Info) : List Byte := [info.transactionId, info.m2sLength, info.s2mLength]

/-- `size` bytes of `data`, from `offset` on. -/
def place (offset size : Nat) (data shmem : Nat → Byte) (i : Nat) : Byte :=
  if offset ≤ i ∧ i < offset + size then data (i - offset) else shmem i

def setSizes (m2s s2m : Nat) (table : Int → Desc) : Int → Desc :=
  let table := Function.update table (cfg.idOf .putRpcReqData)
    { table (cfg.idOf .putRpcReqData) with initiator2targetSize := m2s }
  Function.update table (cfg.idOf .getRpcRespData)
    { table (cfg.idOf .getRpcRespData) with target2initiatorSize := s2m }

def slaveRpcInfoCallback (s : Slave) : Slave :=
  let info := Info.ofBytes s.shmem
  { s with table := setSizes cfg info.m2sLength.toNat info.s2mLength.toNat s.table }

def userCallback (id : Nat) (s : Slave) : Slave :=
  let info := Info.ofBytes s.shmem
  let request := (List.range info.m2sLength.toNat).map fun i => s.shmem (m2sOffset + i)
  { s with shmem := place cfg.s2mOffset info.s2mLength.toNat (cfg.respond id request) s.shmem }

/-- With fuel for the calls that the execution of a call makes. -/
def runCallback : Nat → Callback → Slave → Slave
  | _, .rpcInfo, s => slaveRpcInfoCallback cfg s
  | _, .user id, s => userCallback cfg id s
  | _, .core, s => s
  | 0, .rpcExec, s => s
  | fuel + 1, .rpcExec, s =>
      let info := Info.ofBytes s.shmem
      if cfg.crc8 info.payload ≠ info.checksum then s
      else if info.transactionId.toInt < cfg.numTotal then
        let s := { s with indexed := info.transactionId.toInt :: s.indexed }
        match (s.table info.transactionId.toInt).slaveCallback with
        | some callback => runCallback fuel callback s
        | none => s
      else s

/-- A transaction, and the bytes that arrive with it. -/
structure Transaction where
  id : RpcId
  data : Nat → Byte

def receive (trans : Desc) (data : Nat → Byte) (s : Slave) : Slave :=
  { s with shmem := place trans.initiator2targetOffset trans.initiator2targetSize data s.shmem }

def runSlaveCallback (fuel : Nat) (callback : Option Callback) (s : Slave) : Slave :=
  match callback with
  | some callback => runCallback cfg fuel callback s
  | none => s

def reply (trans : Desc) (s : Slave) : Slave :=
  let bytes := (List.range trans.target2initiatorSize).map fun i =>
    s.shmem (trans.target2initiatorOffset + i)
  { s with replies := bytes :: s.replies }

/-- `react_to_transaction` -/
def react (fuel : Nat) (s : Slave) (t : Transaction) : Slave :=
  let trans := s.table (cfg.idOf t.id)
  let s := runSlaveCallback cfg fuel trans.slaveCallback (receive trans t.data s)
  reply (s.table (cfg.idOf t.id)) s

def run (fuel : Nat) (transactions : List Transaction) : Slave :=
  transactions.foldl (react cfg fuel) (.initial cfg)

/-! ## Bounds -/

/-- `transaction_register_rpc` took the transaction. -/
def Registered (id : Int) : Prop :=
  ∃ n ∈ cfg.registrations, cfg.idOf .getRpcRespData < n ∧ id = n

/-- The sizes are within the buffers, and only registered transactions were looked up. -/
structure Bounded (s : Slave) : Prop where
  m2s : (s.table (cfg.idOf .putRpcReqData)).initiator2targetSize ≤ cfg.m2sBufferSize
  s2m : (s.table (cfg.idOf .getRpcRespData)).target2initiatorSize ≤ cfg.s2mBufferSize
  indexed : ∀ id ∈ s.indexed, Registered cfg id

/-- Every block has sizes within the buffers, and every execution with a right checksum is of a
registered transaction, or of one past the end of the table. -/
def Sound : Info → List Transaction → Prop
  | _, [] => True
  | info, t :: rest =>
      match t.id with
      | .putRpcInfo =>
          let info := Info.ofBytes t.data
          info.m2sLength.toNat ≤ cfg.m2sBufferSize ∧ info.s2mLength.toNat ≤ cfg.s2mBufferSize ∧
            Sound info rest
      | .executeRpc =>
          let info := { info with transactionId := t.data 0 }
          (cfg.crc8 info.payload = info.checksum →
            Registered cfg info.transactionId.toInt ∨
              (cfg.numTotal : Int) ≤ info.transactionId.toInt) ∧
            Sound info rest
      | .putRpcReqData => Sound info rest
      | .getRpcRespData => Sound info rest

/-! ## What the table keeps -/

variable {cfg}

theorem idOf_ne {r r' : RpcId} (h : r ≠ r') : (cfg.idOf r : Int) ≠ cfg.idOf r' := by
  intro heq
  cases r <;> cases r' <;> first | exact h rfl | (simp only [Config.idOf] at heq; omega)

theorem setSizes_req (m2s s2m : Nat) (table : Int → Desc) :
    setSizes cfg m2s s2m table (cfg.idOf .putRpcReqData) =
      { table (cfg.idOf .putRpcReqData) with initiator2targetSize := m2s } :=
  (Function.update_of_ne (idOf_ne (by decide)) _ _).trans (Function.update_self _ _ _)

theorem setSizes_resp (m2s s2m : Nat) (table : Int → Desc) :
    setSizes cfg m2s s2m table (cfg.idOf .getRpcRespData) =
      { table (cfg.idOf .getRpcRespData) with target2initiatorSize := s2m } := by
  refine (Function.update_self _ _ _).trans ?_
  rw [Function.update_of_ne (idOf_ne (by decide))]

theorem setSizes_other (m2s s2m : Nat) (table : Int → Desc) {id : Int}
    (hreq : id ≠ cfg.idOf .putRpcReqData) (hresp : id ≠ cfg.idOf .getRpcRespData) :
    setSizes cfg m2s s2m table id = table id := by
  rw [setSizes, Function.update_of_ne hresp, Function.update_of_ne hreq]

theorem Registered.ne_idOf {id : Int} (h : Registered cfg id) (r : RpcId) : id ≠ cfg.idOf r := by
  obtain ⟨n, -, hlt, rfl⟩ := h
  cases r <;> simp only [Config.idOf] at hlt ⊢ <;> omega

/-- The entries of the four transactions are there, up to the two sizes, and those that were
registered have their callbacks; `info` is the block that the slave has. -/
structure Inv (cfg : Config) (info : Info) (s : Slave) : Prop where
  infoDesc : s.table (cfg.idOf .putRpcInfo) = cfg.desc .putRpcInfo
  reqOffset : (s.table (cfg.idOf .putRpcReqData)).initiator2targetOffset = m2sOffset
  reqCallback : (s.table (cfg.idOf .putRpcReqData)).slaveCallback = none
  execDesc : s.table (cfg.idOf .executeRpc) = cfg.desc .executeRpc
  respSize : (s.table (cfg.idOf .getRpcRespData)).initiator2targetSize = 0
  respCallback : (s.table (cfg.idOf .getRpcRespData)).slaveCallback = none
  user : ∀ id, Registered cfg id → ∃ n, (s.table id).slaveCallback = some (.user n)
  held : Info.ofBytes s.shmem = info

theorem transactionRegisterRpc_idOf (table : Int → Desc) (id : Nat) (r : RpcId) :
    transactionRegisterRpc cfg table id (cfg.idOf r) = table (cfg.idOf r) := by
  unfold transactionRegisterRpc
  split
  · rfl
  · rename_i h
    refine Function.update_of_ne ?_ _ _
    cases r <;> simp only [Config.idOf] at h ⊢ <;> omega

theorem registrations_idOf (ids : List Nat) (table : Int → Desc) (r : RpcId) :
    ids.foldl (transactionRegisterRpc cfg) table (cfg.idOf r) = table (cfg.idOf r) := by
  induction ids generalizing table with
  | nil => rfl
  | cons id ids ih => rw [List.foldl_cons, ih, transactionRegisterRpc_idOf]

theorem transactionRegisterRpc_user {table : Int → Desc} {id n : Nat}
    (hn : cfg.idOf .getRpcRespData < n)
    (h : n = id ∨ (table n).slaveCallback = some (.user n)) :
    (transactionRegisterRpc cfg table id n).slaveCallback = some (.user n) := by
  unfold transactionRegisterRpc
  split
  · rename_i hle
    exact h.resolve_left (by omega)
  · by_cases heq : n = id
    · subst heq
      rw [Function.update_self]
    · rw [Function.update_of_ne (by omega)]
      exact h.resolve_left heq

theorem registrations_user {ids : List Nat} {table : Int → Desc} {n : Nat}
    (hn : cfg.idOf .getRpcRespData < n)
    (h : n ∈ ids ∨ (table n).slaveCallback = some (.user n)) :
    (ids.foldl (transactionRegisterRpc cfg) table n).slaveCallback = some (.user n) := by
  induction ids generalizing table with
  | nil => exact h.resolve_left List.not_mem_nil
  | cons id ids ih =>
      rw [List.foldl_cons]
      apply ih
      rcases h with h | h
      · rcases List.mem_cons.mp h with rfl | h
        · exact .inr (transactionRegisterRpc_user hn (.inl rfl))
        · exact .inl h
      · exact .inr (transactionRegisterRpc_user hn (.inr h))

theorem splitTransactionTable_idOf (r : RpcId) :
    splitTransactionTable cfg (cfg.idOf r) = cfg.desc r := by
  unfold splitTransactionTable
  cases r with
  | putRpcInfo => exact if_pos rfl
  | putRpcReqData => rw [if_neg (idOf_ne (by decide)), if_pos rfl]
  | executeRpc =>
      rw [if_neg (idOf_ne (by decide)), if_neg (idOf_ne (by decide)), if_pos rfl]
  | getRpcRespData =>
      rw [if_neg (idOf_ne (by decide)), if_neg (idOf_ne (by decide)),
        if_neg (idOf_ne (by decide)), if_pos rfl]

theorem initial_table (r : RpcId) : (Slave.initial cfg).table (cfg.idOf r) = cfg.desc r :=
  (registrations_idOf _ _ r).trans (splitTransactionTable_idOf r)

theorem inv_initial : Inv cfg ⟨0, 0, 0, 0⟩ (.initial cfg) where
  infoDesc := initial_table _
  reqOffset := congrArg Desc.initiator2targetOffset (initial_table .putRpcReqData)
  reqCallback := congrArg Desc.slaveCallback (initial_table .putRpcReqData)
  execDesc := initial_table _
  respSize := congrArg Desc.initiator2targetSize (initial_table .getRpcRespData)
  respCallback := congrArg Desc.slaveCallback (initial_table .getRpcRespData)
  user := by
    rintro id ⟨n, hmem, hn, rfl⟩
    exact ⟨n, registrations_user hn (.inl hmem)⟩
  held := rfl

theorem bounded_initial : Bounded cfg (.initial cfg) where
  m2s := by rw [initial_table]; exact Nat.le_refl _
  s2m := by rw [initial_table]; exact Nat.le_refl _
  indexed := List.forall_mem_nil _

/-! ## One transaction -/

section Step

variable {info : Info} {s : Slave} {fuel : Nat}

theorem ofBytes_place {offset size : Nat} (data shmem : Nat → Byte) (h : 4 ≤ offset) :
    Info.ofBytes (place offset size data shmem) = Info.ofBytes shmem := by
  unfold Info.ofBytes place
  rw [if_neg (by omega), if_neg (by omega), if_neg (by omega), if_neg (by omega)]

theorem Inv.of_shmem {shmem : Nat → Byte} (hinv : Inv cfg info s) (indexed : List Int)
    (replies : List (List Byte)) :
    Inv cfg (.ofBytes shmem) ⟨s.table, shmem, indexed, replies⟩ :=
  { hinv with held := rfl }

theorem Inv.setSizes (hinv : Inv cfg info s) (m2s s2m : Nat) :
    Inv cfg info { s with table := setSizes cfg m2s s2m s.table } where
  infoDesc := (setSizes_other _ _ _ (idOf_ne (by decide)) (idOf_ne (by decide))).trans hinv.infoDesc
  reqOffset := (congrArg Desc.initiator2targetOffset (setSizes_req _ _ _)).trans hinv.reqOffset
  reqCallback := (congrArg Desc.slaveCallback (setSizes_req _ _ _)).trans hinv.reqCallback
  execDesc := (setSizes_other _ _ _ (idOf_ne (by decide)) (idOf_ne (by decide))).trans hinv.execDesc
  respSize := (congrArg Desc.initiator2targetSize (setSizes_resp _ _ _)).trans hinv.respSize
  respCallback := (congrArg Desc.slaveCallback (setSizes_resp _ _ _)).trans hinv.respCallback
  user := fun id hid => by
    obtain ⟨n, hn⟩ := hinv.user id hid
    exact ⟨n, (congrArg Desc.slaveCallback
      (setSizes_other _ _ _ (hid.ne_idOf _) (hid.ne_idOf _))).trans hn⟩
  held := hinv.held

theorem Inv.reply {trans : Desc} (hinv : Inv cfg info s) : Inv cfg info (reply trans s) :=
  { hinv with }

theorem bounded_reply {trans : Desc} : Bounded cfg (reply trans s) ↔ Bounded cfg s :=
  ⟨fun h => ⟨h.m2s, h.s2m, h.indexed⟩, fun h => ⟨h.m2s, h.s2m, h.indexed⟩⟩

theorem runCallback_rpcInfo :
    runCallback cfg fuel .rpcInfo s = slaveRpcInfoCallback cfg s := by
  cases fuel <;> rfl

theorem runCallback_user (n : Nat) :
    runCallback cfg fuel (.user n) s = userCallback cfg n s := by
  cases fuel <;> rfl

theorem react_putRpcInfo (hinv : Inv cfg info s) (data : Nat → Byte) :
    ∃ trans, react cfg fuel s ⟨.putRpcInfo, data⟩ =
      reply trans { s with
        table := setSizes cfg (data 2).toNat (data 3).toNat s.table
        shmem := place 0 4 data s.shmem } := by
  rw [react]
  dsimp only
  rw [hinv.infoDesc]
  refine ⟨_, congrArg _ ?_⟩
  exact runCallback_rpcInfo

theorem step_putRpcInfo (hinv : Inv cfg info s) (hbounded : Bounded cfg s) (data : Nat → Byte) :
    Inv cfg (.ofBytes data) (react cfg fuel s ⟨.putRpcInfo, data⟩) ∧
      (Bounded cfg (react cfg fuel s ⟨.putRpcInfo, data⟩) ↔
        (data 2).toNat ≤ cfg.m2sBufferSize ∧ (data 3).toNat ≤ cfg.s2mBufferSize) := by
  obtain ⟨trans, hreact⟩ := @react_putRpcInfo _ _ _ fuel hinv data
  rw [hreact]
  constructor
  · exact ((@Inv.of_shmem _ _ _ (place 0 4 data s.shmem) hinv s.indexed s.replies).setSizes
      _ _).reply
  · rw [bounded_reply]
    have hreq := @setSizes_req cfg (data 2).toNat (data 3).toNat s.table
    have hresp := @setSizes_resp cfg (data 2).toNat (data 3).toNat s.table
    constructor
    · rintro ⟨hm2s, hs2m, -⟩
      dsimp only at hm2s hs2m
      rw [hreq] at hm2s
      rw [hresp] at hs2m
      exact ⟨hm2s, hs2m⟩
    · rintro ⟨hm2s, hs2m⟩
      refine ⟨?_, ?_, hbounded.indexed⟩
      · dsimp only
        rw [hreq]
        exact hm2s
      · dsimp only
        rw [hresp]
        exact hs2m

theorem step_putRpcReqData (hinv : Inv cfg info s) (hbounded : Bounded cfg s)
    (data : Nat → Byte) :
    Inv cfg info (react cfg fuel s ⟨.putRpcReqData, data⟩) ∧
      Bounded cfg (react cfg fuel s ⟨.putRpcReqData, data⟩) := by
  rw [react]
  dsimp only
  rw [hinv.reqCallback]
  constructor
  · refine Inv.reply { hinv with held := ?_ }
    refine (ofBytes_place _ _ ?_).trans hinv.held
    rw [hinv.reqOffset, m2sOffset]
  · exact bounded_reply.mpr ⟨hbounded.m2s, hbounded.s2m, hbounded.indexed⟩

theorem step_getRpcRespData (hinv : Inv cfg info s) (hbounded : Bounded cfg s)
    (data : Nat → Byte) :
    Inv cfg info (react cfg fuel s ⟨.getRpcRespData, data⟩) ∧
      Bounded cfg (react cfg fuel s ⟨.getRpcRespData, data⟩) := by
  rw [react]
  dsimp only
  rw [hinv.respCallback]
  constructor
  · refine Inv.reply { hinv with held := ?_ }
    rw [← hinv.held]
    change Info.ofBytes (place _ (s.table (cfg.idOf .getRpcRespData)).initiator2targetSize data
      s.shmem) = _
    rw [hinv.respSize]
    unfold Info.ofBytes place
    rw [if_neg (by omega), if_neg (by omega), if_neg (by omega), if_neg (by omega)]
  · exact bounded_reply.mpr ⟨hbounded.m2s, hbounded.s2m, hbounded.indexed⟩

theorem indexed_mono (callback : Callback) {id : Int} (h : id ∈ s.indexed) :
    id ∈ (runCallback cfg fuel callback s).indexed := by
  induction fuel generalizing callback s with
  | zero => cases callback <;> exact h
  | succ fuel ih =>
      cases callback with
      | rpcInfo => exact h
      | user n => exact h
      | core => exact h
      | rpcExec =>
          rw [runCallback]
          dsimp only
          split
          · exact h
          split
          · split
            · exact ih _ (List.mem_cons_of_mem _ h)
            · exact List.mem_cons_of_mem _ h
          · exact h

theorem react_executeRpc (hinv : Inv cfg info s) (data : Nat → Byte) :
    ∃ trans, react cfg fuel s ⟨.executeRpc, data⟩ =
      reply trans (runCallback cfg fuel .rpcExec { s with shmem := place 1 1 data s.shmem }) := by
  rw [react]
  dsimp only
  rw [hinv.execDesc]
  exact ⟨_, rfl⟩

theorem runCallback_rpcExec (s : Slave) :
    let info := Info.ofBytes s.shmem
    let id := info.transactionId.toInt
    runCallback cfg (fuel + 1) .rpcExec s =
      if cfg.crc8 info.payload = info.checksum ∧ id < cfg.numTotal then
        runSlaveCallback cfg fuel (s.table id).slaveCallback { s with indexed := id :: s.indexed }
      else s := by
  rw [runCallback]
  dsimp only
  by_cases hcrc : cfg.crc8 (Info.ofBytes s.shmem).payload = (Info.ofBytes s.shmem).checksum
  · rw [if_neg (not_not_intro hcrc)]
    by_cases hid : (Info.ofBytes s.shmem).transactionId.toInt < cfg.numTotal
    · rw [if_pos hid, if_pos ⟨hcrc, hid⟩]
      rfl
    · rw [if_neg hid, if_neg fun h => hid h.2]
  · rw [if_pos hcrc, if_neg fun h => hcrc h.1]

theorem indexed_mono_slave (callback : Option Callback) {id : Int} (h : id ∈ s.indexed) :
    id ∈ (runSlaveCallback cfg fuel callback s).indexed := by
  cases callback with
  | none => exact h
  | some callback => exact indexed_mono callback h

theorem step_executeRpc (hinv : Inv cfg info s) (hbounded : Bounded cfg s) (data : Nat → Byte) :
    let info' := { info with transactionId := data 0 }
    let after := react cfg (fuel + 1) s ⟨.executeRpc, data⟩
    (Bounded cfg after ↔
      (cfg.crc8 info'.payload = info'.checksum → Registered cfg info'.transactionId.toInt ∨
        (cfg.numTotal : Int) ≤ info'.transactionId.toInt)) ∧
    (Bounded cfg after → Inv cfg info' after) := by
  intro info' after
  obtain ⟨trans, hreact⟩ := @react_executeRpc _ _ _ (fuel + 1) hinv data
  have hheld : Info.ofBytes (place 1 1 data s.shmem) = info' := by
    have hplaced : Info.ofBytes (place 1 1 data s.shmem) =
      { Info.ofBytes s.shmem with transactionId := data 0 } := rfl
    rwa [hinv.held] at hplaced
  have hinv' := @Inv.of_shmem _ _ _ (place 1 1 data s.shmem) hinv s.indexed s.replies
  rw [show after = _ from hreact, runCallback_rpcExec, bounded_reply]
  dsimp only
  rw [hheld] at hinv' ⊢
  split
  · rename_i h
    obtain ⟨hcrc, hid⟩ := h
    by_cases hregistered : Registered cfg info'.transactionId.toInt
    · obtain ⟨n, hn⟩ := hinv.user _ hregistered
      rw [hn, runSlaveCallback, runCallback_user]
      refine ⟨⟨fun _ _ => .inl hregistered, fun _ => ⟨hbounded.m2s, hbounded.s2m, ?_⟩⟩, fun _ => ?_⟩
      · exact List.forall_mem_cons.mpr ⟨hregistered, hbounded.indexed⟩
      · refine Inv.reply { hinv' with held := ?_ }
        exact (ofBytes_place _ _ (Nat.le_add_right _ _)).trans hheld
    · have hnot : ¬Bounded cfg (runSlaveCallback cfg fuel
          (s.table info'.transactionId.toInt).slaveCallback
          { s with
            shmem := place 1 1 data s.shmem
            indexed := info'.transactionId.toInt :: s.indexed }) :=
        fun h => hregistered (h.indexed _ (indexed_mono_slave _ List.mem_cons_self))
      refine ⟨⟨fun h => absurd h hnot, fun h => ?_⟩, fun h => absurd h hnot⟩
      exact (h hcrc).elim (fun h => absurd h hregistered) fun h => absurd hid (Int.not_lt.mpr h)
  · rename_i h
    refine ⟨⟨fun _ hcrc => .inr ?_, fun _ => ⟨hbounded.m2s, hbounded.s2m, hbounded.indexed⟩⟩,
      fun _ => hinv'.reply⟩
    exact Int.not_lt.mp fun hid => h ⟨hcrc, hid⟩

end Step

/-! ## Runs -/

theorem run_bounded_iff {info : Info} {s : Slave} (fuel : Nat) (hinv : Inv cfg info s)
    (hbounded : Bounded cfg s) (transactions : List Transaction) :
    (∀ before after, transactions = before ++ after →
      Bounded cfg (before.foldl (react cfg (fuel + 1)) s)) ↔ Sound cfg info transactions := by
  induction transactions generalizing info s with
  | nil =>
      refine ⟨fun _ => trivial, fun _ before after h => ?_⟩
      rw [(List.append_eq_nil_iff.mp h.symm).1]
      exact hbounded
  | cons t rest ih =>
      have hsplit : (∀ before after, t :: rest = before ++ after →
          Bounded cfg (before.foldl (react cfg (fuel + 1)) s)) ↔
          Bounded cfg (react cfg (fuel + 1) s t) ∧ ∀ before after, rest = before ++ after →
            Bounded cfg (before.foldl (react cfg (fuel + 1)) (react cfg (fuel + 1) s t)) := by
        constructor
        · intro h
          exact ⟨h [t] rest rfl, fun before after heq => h (t :: before) after (by rw [heq]; rfl)⟩
        · rintro ⟨-, h⟩ before after heq
          cases before with
          | nil => exact hbounded
          | cons t' before =>
              obtain ⟨rfl, hrest⟩ := List.cons.inj heq
              exact h before after hrest
      rw [hsplit]
      obtain ⟨id, data⟩ := t
      cases id with
      | putRpcInfo =>
          obtain ⟨hinv', hiff⟩ := @step_putRpcInfo _ _ _ (fuel + 1) hinv hbounded data
          rw [Sound, ← and_assoc]
          exact (and_congr_right fun h => ih hinv' h).trans (and_congr_left' hiff)
      | putRpcReqData =>
          obtain ⟨hinv', hbounded'⟩ := @step_putRpcReqData _ _ _ (fuel + 1) hinv hbounded data
          exact (and_iff_right hbounded').trans (ih hinv' hbounded')
      | executeRpc =>
          obtain ⟨hiff, hinv'⟩ := @step_executeRpc _ _ _ fuel hinv hbounded data
          exact (and_congr_right fun h => ih (hinv' h) h).trans (and_congr_left' hiff)
      | getRpcRespData =>
          obtain ⟨hinv', hbounded'⟩ := @step_getRpcRespData _ _ _ (fuel + 1) hinv hbounded data
          exact (and_iff_right hbounded').trans (ih hinv' hbounded')

variable (cfg)

/-- The slave stays within its buffers and its registered transactions, in every state of a run,
just when the blocks that it receives do. -/
theorem bounded_iff_sound (fuel : Nat) (transactions : List Transaction) :
    (∀ before after, transactions = before ++ after → Bounded cfg (run cfg (fuel + 1) before)) ↔
      Sound cfg ⟨0, 0, 0, 0⟩ transactions :=
  run_bounded_iff fuel inv_initial bounded_initial transactions

/-- Two halves with one transaction of the user. -/
def halves : Config where
  m2sBufferSize := 32
  s2mBufferSize := 32
  putRpcInfo := 5
  numTotal := 10
  crc8 := Crc.crc8
  table := fun _ => ⟨0, 0, 0, 0, none⟩
  registrations := [9]
  registrations_lt := by decide
  respond := fun _ _ _ => 0

/-- A size beyond the buffer is taken over whatever the checksum is, and a negative transaction is
looked up when the checksum is right. -/
theorem corrupted_overruns :
    ¬Bounded halves (run halves 1 [⟨.putRpcInfo, fun i => [0x00, 0x09, 0xC8, 0x00].getD i 0⟩]) ∧
    ¬Bounded halves (run halves 1
      [⟨.putRpcInfo, fun i => [Crc.crc8 [0xFF, 0x00, 0x00], 0xFF, 0x00, 0x00].getD i 0⟩,
        ⟨.executeRpc, fun _ => 0xFF⟩]) := by
  constructor
  · intro h
    exact absurd h.m2s (by decide)
  · intro h
    obtain ⟨n, -, -, hn⟩ := h.indexed (-1) (by decide +kernel)
    omega

/-! ## The master -/

/-- The transactions of a call, of which the first three bring data. -/
def transactionRpcExec (id m2sLength : Byte) (request : Nat → Byte) (s2mLength : Byte) :
    Option (List Transaction) :=
  if id.toInt ≤ cfg.idOf .getRpcRespData then none
  else if m2sLength.toNat > cfg.m2sBufferSize then none
  else if s2mLength.toNat > cfg.s2mBufferSize then none
  else
    let checksum := cfg.crc8 [id, m2sLength, s2mLength]
    some
      [⟨.putRpcInfo, fun i => [checksum, id, m2sLength, s2mLength].getD i 0⟩,
        ⟨.putRpcReqData, request⟩, ⟨.executeRpc, fun _ => id⟩, ⟨.getRpcRespData, fun _ => 0⟩]

theorem transactionRpcExec_sound {id m2sLength s2mLength : Byte} {request : Nat → Byte}
    {transactions rest : List Transaction} (hregistered : Registered cfg id.toInt)
    (h : transactionRpcExec cfg id m2sLength request s2mLength = some transactions)
    (hrest : ∀ info, Sound cfg info rest) (info : Info) : Sound cfg info (transactions ++ rest) := by
  unfold transactionRpcExec at h
  split_ifs at h with hid hm2s hs2m
  cases h
  exact ⟨Nat.le_of_not_lt hm2s, Nat.le_of_not_lt hs2m, fun _ => .inl hregistered, hrest _⟩

end Qmk.SplitRpc
