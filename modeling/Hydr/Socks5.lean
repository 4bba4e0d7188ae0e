import Mathlib
import Hydr.Library.Dialogue
import Hydr.Message

/-!
# The SOCKS5 entry of the client

Method negotiation, username and password, the request, and what the client
does for it. The connection is whatever bytes a local peer sends until it falls
silent, with writes that may fail. Opening a stream and serving an association
enter as their results.
-/

set_option autoImplicit false

namespace Hydr.Socks5
open Dialogue Message

def cmdConnect : UInt8 := 0x01
def cmdUdpAssociate : UInt8 := 0x03

def methodNoAuth : UInt8 := 0x00
def methodUserpass : UInt8 := 0x02
def methodNoAcceptable : UInt8 := 0xff

structure Request where
  cmd : UInt8
  address : Address

inductive Opening where
  | stream (address : Address)
  | association
  deriving DecidableEq

abbrev Conn : Type → Type := Talk Error Opening

def readAddress (atyp : UInt8) : Conn Bytes :=
  if atyp = 1 then do
    let rest ← readExact .io 6
    return atyp::rest
  else if atyp = 4 then do
    let rest ← readExact .io 18
    return atyp::rest
  else if atyp = 3 then do
    let len ← readByte .io
    let rest ← readExact .io (len.toNat+2)
    return atyp::len::rest
  else throw (.invalidData "bad address type")

def readRequest : Conn Request := do
  let head ← readExact .io 4
  if head.getD 0 0 ≠ 5 then throw (.invalidData "bad socks version")
  else do
    let addr ← readAddress (head.getD 3 0)
    match Address.decode addr with
    | .ok (address,_) => return ⟨head.getD 1 0,address⟩
    | .error e => throw e

def parseUdpPacket (buf : Bytes) : Result (Address × Bytes) := do
  if buf.length < 4 ∨ buf.getD 2 0 ≠ 0 then .error (.invalidData "bad socks udp header")
  else
    let (address,used) ← Address.decode (buf.drop 3)
    return (address,buf.drop (3+used))

def negotiateMethod (requireAuth : Bool) : Conn (Option UInt8) := do
  let head ← readExact .io 2
  if head.getD 0 0 ≠ 5 then throw (.invalidData "bad socks version")
  else
    let nmethods := (head.getD 1 0).toNat
    if nmethods = 0 ∨ 32 < nmethods then throw (.invalidData "bad nmethods")
    else do
      let methods ← readExact .io nmethods
      let want := if requireAuth then methodUserpass else methodNoAuth
      if want ∈ methods then do
        writeAll .io [5,want]
        return some want
      else do
        writeAll .io [5,methodNoAcceptable]
        return none

def verifyUserpass (expectedUser expectedPass : Bytes) : Conn Bool := do
  let head ← readExact .io 2
  if head.getD 0 0 ≠ 1 then throw (.invalidData "bad userpass version")
  else
    let ulen := (head.getD 1 0).toNat
    if ulen = 0 ∨ 255 < ulen then throw (.invalidData "bad username length")
    else do
      let user ← readExact .io ulen
      let plenBuf ← readByte .io
      let plen := plenBuf.toNat
      if 255 < plen then throw (.invalidData "bad password length")
      else do
        let pass ← readExact .io plen
        let ok := ctEq user expectedUser && ctEq pass expectedPass
        writeAll .io [1,if ok then 0 else 1]
        return ok

structure Config where
  socks5Username : Option Bytes
  socks5Password : Option Bytes

def login (config : Config) : Conn Unit := do
  let method ← negotiateMethod config.socks5Username.isSome
  match method with
  | some m =>
    if m = methodUserpass then do
      let ok ← verifyUserpass (config.socks5Username.getD []) (config.socks5Password.getD [])
      if ok then return () else throw (.invalidData "socks5 auth failed")
    else return ()
  | none => throw (.invalidData "no acceptable auth method")

def replyBytes (code : UInt8) : Bytes := [5,code,0,1,0,0,0,0,0,0]

/-- `open_stream_resilient` and `associate` enter as what they answer. -/
def handleConn (config : Config) (openStreamResilient : Address → Result Unit)
    (associate : Result Unit) : Conn Unit := do
  login config
  let req ← readRequest
  if req.cmd = cmdConnect then do
    act (.stream req.address)
    match openStreamResilient req.address with
    | .ok _ => writeAll .io (replyBytes 0x00)
    | .error e => do
      attempt (writeAll .io (replyBytes 0x04))
      throw e
  else if req.cmd = cmdUdpAssociate then do
    act .association
    match associate with
    | .ok _ => return ()
    | .error e => throw e
  else do
    writeAll .io (replyBytes 0x07)
    throw (.invalidData "unsupported command")

end Hydr.Socks5
