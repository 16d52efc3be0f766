import Reclaim.Defect
import Reclaim.Uuid

/-!
# Faults of a run

A recoverable fault costs the line or the batch that caused it.  A fatal fault
ends the run, and what has been written until then must be discarded: the input
is not in the order that the engines rely on, or it cannot be read.
-/

namespace Reclaim

/-- Why a service refuses a request. -/
inductive Refusal
  | notFound (name : String)
  | etagConflict (key : String)
  /-- A failure has been injected for the target. -/
  | injected (target : String)
  /-- The data to be written could not be read. -/
  | unreadableBody (text : String)
  | sizeMismatch (path : String) (expected found : Nat)
  | uploadProtected (path : String)
  | notEmpty (path : String)
  deriving DecidableEq, Repr

namespace Refusal

/-- The wording of a refusal. -/
def message : Refusal → String
  | notFound name => "`" ++ name ++ "` not found"
  | etagConflict key => "etag conflict on `" ++ key ++ "`"
  | injected target => "request failed: injected failure for " ++ target
  | unreadableBody text => "request failed: " ++ text
  | sizeMismatch path expected found =>
      "request failed: size mismatch for " ++ path ++ ": expected "
        ++ toString expected ++ ", got " ++ toString found
  | uploadProtected path =>
      "request failed: " ++ path
        ++ " is part of an upload; mpu deletes not allowed"
  | notEmpty path => "request failed: directory " ++ path ++ " not empty"

end Refusal

/-- What is wrong with the records of an upload. -/
inductive BatchDefect
  | foreignRecord (upload : Uuid)
  | secondFinalizing
  | secondDirectory
  | noFinalizing
  | noOwner (key : String)
  | notOwned (key : String) (owner : Uuid)
  deriving DecidableEq

namespace BatchDefect

/-- The wording of a defect. -/
def message : BatchDefect → String
  | foreignRecord upload => "contains record for upload " ++ upload.text
  | secondFinalizing => "more than one finalizing record"
  | secondDirectory => "more than one upload directory record"
  | noFinalizing => "no finalizing record"
  | noOwner key => "no owner uuid in key `" ++ key ++ "`"
  | notOwned key owner =>
      "record `" ++ key ++ "` is not owned by " ++ owner.text

end BatchDefect

/-- A fault of a run. -/
inductive Fault
  | malformed (line : Nat) (defect : Defect)
  | invalidBatch (upload : Uuid) (defect : BatchDefect)
  /-- A path could not be removed. -/
  | unlinkFailed (path : String) (refusal : Refusal)
  /-- The account of an owner could not be found. -/
  | unresolvedAccount (owner : Uuid) (refusal : Refusal)
  | outOfOrder (current previous : String)
  | uploadReappeared (upload : Uuid)
  /-- Input or output failed. -/
  | inputOutput (text : String)
  deriving DecidableEq

namespace Fault

/-- The fault ends the run. -/
def isFatal : Fault → Bool
  | outOfOrder _ _ => true
  | uploadReappeared _ => true
  | inputOutput _ => true
  | _ => false

/-- The wording of a fault. -/
def message : Fault → String
  | malformed line defect =>
      "line " ++ toString line ++ ": " ++ defect.message
  | invalidBatch upload defect =>
      "dropping batch for upload `" ++ upload.text ++ "`: " ++ defect.message
  | unlinkFailed path refusal =>
      "unlink failed: unlink " ++ path ++ ": " ++ refusal.message
  | unresolvedAccount owner refusal =>
      "resolve account failed: " ++ owner.text ++ ": " ++ refusal.message
  | outOfOrder current previous =>
      "input is not sorted: `" ++ current ++ "` follows `" ++ previous ++ "`"
  | uploadReappeared upload =>
      "upload `" ++ upload.text ++ "` reappeared after its batch was closed"
  | inputOutput text => text

end Fault
end Reclaim
