import RocksQueue.Lib.Paths

/-! # Checkpoints

`create_checkpoint` of `tenant.rs` and the HTTP handler of `main.rs` that calls it with what a client asks for. What
RocksDB makes of a path is taken from outside. -/

namespace RocksQueue
open Paths

inductive CheckpointError where
  /-- `QueueError::Io` -/
  | permissionDenied (message : String)
  /-- `QueueError::RocksDB` -/
  | rocksdb (text : String)
  deriving DecidableEq, Repr

/-- `to_string`. -/
def CheckpointError.text : CheckpointError → String
  | .permissionDenied message => "IO error: " ++ message
  | .rocksdb text => "RocksDB error: " ++ text

/-- The path that RocksDB is asked for. -/
def checkpointTarget (path allowedBase : String) : Except CheckpointError String :=
  if .parentDir ∈ components path.toList then .error (.permissionDenied "checkpoint path must not contain '..'")
  else if components allowedBase.toList <+: components path.toList then .ok path
  else .error (.permissionDenied "checkpoint path must be under configured checkpoint directory")

def createCheckpoint (rocksdb : String → Except String Unit) (path allowedBase : String) : Except CheckpointError Unit :=
  match checkpointTarget path allowedBase with
  | .error e => .error e
  | .ok target =>
    match rocksdb target with
    | .ok () => .ok ()
    | .error text => .error (.rocksdb text)

inductive StatusCode where
  | ok
  | badRequest
  | internalServerError
  deriving DecidableEq, Repr

structure CheckpointResponse where
  ok : Bool
  path : String
  error : Option String
  deriving DecidableEq, Repr

/-- The texts of refusals have the word in them. -/
def checkpointHandler (rocksdb : String → Except String Unit) (checkpointPath path : String) :
    StatusCode × CheckpointResponse :=
  match createCheckpoint rocksdb path checkpointPath with
  | .ok () => (.ok, ⟨true, path, none⟩)
  | .error e =>
    (if "must".toList <:+: e.text.toList then .badRequest else .internalServerError, ⟨false, path, some e.text⟩)

example : checkpointTarget "./data/checkpoints//snap/." "./data/checkpoints" = .ok "./data/checkpoints//snap/." := by decide

/-- The same place, spelled otherwise. -/
example : checkpointTarget "data/checkpoints/snap" "./data/checkpoints" =
    .error (.permissionDenied "checkpoint path must be under configured checkpoint directory") := by decide

end RocksQueue
