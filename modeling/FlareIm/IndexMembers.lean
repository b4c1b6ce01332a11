import FlareIm.GatewaySweep
import FlareIm.Lib.LuaNumber

namespace FlareIm.IndexMembers

open Framed SessionStore GatewaySweep

section Members

def tenantSessionMemberPrefix (userId : String) : String :=
  "v2:" ++ toString userId.utf8ByteSize ++ ":" ++ userId ++ ":"

-- The user and the device of a member of a tenant's index.
def parseTenantSessionMember (member : String) : Option (String × String) :=
  match member.toList with
  | 'v' :: '2' :: ':' :: rest =>
    (unframe rest).bind fun fields =>
      if fields.1 ≠ [] ∧ fields.2 ≠ [] then
        some (String.ofList fields.1, String.ofList fields.2)
      else none
  | _ => none

def connectionMember (tenantId userId sessionField : String) : String :=
  "v1:" ++ toString tenantId.utf8ByteSize ++ ":" ++ tenantId ++ ":" ++
    toString userId.utf8ByteSize ++ ":" ++ userId ++ ":" ++ sessionField

end Members

section Script

-- A script knows bytes only, and writes their number as it writes any number.
def scriptLength (bytes : ByteArray) : ByteArray :=
  (LuaNumber.text bytes.size).toByteArray

-- `gateway_member` of the admission script. `user` is the argument of the script.
def scriptGatewayMember (user tenant field : ByteArray) : ByteArray :=
  "v1:".toByteArray ++ scriptLength tenant ++ ":".toByteArray ++ tenant ++ ":".toByteArray ++
    scriptLength user ++ ":".toByteArray ++ user ++ ":".toByteArray ++ field

-- The most bytes that Redis takes as one argument: 512 MiB.
def REDIS_ARGUMENT_BYTES : Nat := 512 * 1024 * 1024

end Script

end FlareIm.IndexMembers
