/- Constants, enumerations and records shared by the gateway programs. -/

import Rmsgw.Lib.CStrings

set_option autoImplicit false
set_option relaxedAutoImplicit false

namespace Rmsgw.Rms

def maxUserCall : Nat := 9

def maxGwCall : Nat := 9

def maxServiceCode : Nat := 16

def convTimeout : Nat := 60

/-- Channel updates every two hours less one minute. -/
def dfltChannelUpd : Int := 7140

def dfltVersionUpd : Int := 86400

def rmsMaxHostName : Nat := 64

def rmsCmsTableSize : Nat := 10

def rmsGwTableSize : Nat := 10

/-- A memory error that ends the process. -/
inductive Fault
  | nullDeref
  | bufferOverflow
  deriving DecidableEq

inductive GwState
  | gwUnused | gwRunning | gwIdle | gwConnecting | gwAuthorizing | gwConnected | gwLogin
  | gwLoggedIn | gwCommWait | gwSending | gwReceiving | gwDisconnecting | gwDisconnected
  deriving DecidableEq

inductive AciState
  | aciUnused | aciRunning | aciIdle | aciConnecting | aciConnected | aciChannelAdd
  | aciChannelUpdate | aciVersionUpdate | aciDisconnecting | aciDisconnected
  deriving DecidableEq

/-- The outcome record `struct ust` of one gateway conversation. -/
structure Ust where
  errcode : Int
  bytesSent : UInt64
  bytesRecv : UInt64
  deriving DecidableEq

def errGwLogin : Int := -1

/-- Fatal error code lower limit. -/
def errGwFatal : Int := -101

def errGwSock : Int := -101

def errGwAx25 : Int := -102

def errGwSockIo : Int := -103

def errGwAx25Io : Int := -104

/-- What one `write` call returns. -/
inductive WriteResult
  | wrote (count : Nat)
  | eagain
  | failed
  deriving DecidableEq

/-- The bytes of an offer that a `write` call took. -/
def WriteResult.taken (offered : List UInt8) : WriteResult → List UInt8
  | .wrote count => offered.take count
  | .eagain => []
  | .failed => []

@[simp] theorem taken_wrote (offered : List UInt8) (m : Nat) :
    (WriteResult.wrote m).taken offered = offered.take m := rfl

@[simp] theorem taken_eagain (offered : List UInt8) : WriteResult.eagain.taken offered = [] := rfl

@[simp] theorem taken_failed (offered : List UInt8) : WriteResult.failed.taken offered = [] := rfl

end Rmsgw.Rms
