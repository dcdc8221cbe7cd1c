import Qeli.Lib.Bytes

/-!
# Roaming wire contracts

The values shared by TCP resume and UDP path migration
(`protocol/roaming.rs`): the TCP resume proof and its JOIN, and the CONTROL_V2
path messages. HMAC-SHA256 comes from a third-party crate and is a parameter
`hmac key message` wherever a proof is made or checked.
-/

namespace Qeli.Wire

open Qeli.Lib

abbrev Bytes (n : Nat) := Vector UInt8 n

/-- Keyed 32-byte message authentication. -/
abbrev Hmac := Bytes 32 → List UInt8 → Bytes 32

/-! ## TCP resume -/

def resumeProofLabel : List UInt8 := "qeli-tcp-resume-proof-v2".toUTF8.toList

structure ResumeProofInput where
  transcriptHash : Bytes 32
  sessionLocator : Bytes 16
  resumeEpoch : Nat
  logicalSlotId : Nat
  handover : Bool
  deriving DecidableEq

def makeResumeProof (hmac : Hmac) (resumeSecret : Bytes 32) (input : ResumeProofInput) : Bytes 32 :=
  hmac resumeSecret (resumeProofLabel ++ input.transcriptHash.toList ++
    input.sessionLocator.toList ++ beBytes 8 input.resumeEpoch ++ beBytes 4 input.logicalSlotId ++
    [if input.handover then 1 else 0])

def verifyResumeProof (hmac : Hmac) (resumeSecret : Bytes 32) (input : ResumeProofInput)
    (received : Bytes 32) : Bool :=
  makeResumeProof hmac resumeSecret input == received

structure TcpResumeJoin where
  input : ResumeProofInput
  proof : Bytes 32
  deriving DecidableEq

namespace TcpResumeJoin

def verify (hmac : Hmac) (self : TcpResumeJoin) (resumeSecret : Bytes 32) : Bool :=
  verifyResumeProof hmac resumeSecret self.input self.proof

def matchesTranscript (self : TcpResumeJoin) (transcriptHash : Bytes 32) : Bool :=
  self.input.transcriptHash == transcriptHash

end TcpResumeJoin

/-! ## UDP path migration -/

abbrev UdpCid := Bytes 8

abbrev PathToken := Bytes 16

inductive PathControl where
  | init (cid : UdpCid) (epoch : Nat)
  | challenge (epoch : Nat) (token : PathToken)
  | response (epoch : Nat) (token : PathToken)
  | commit (cid : UdpCid) (epoch : Nat)
  | abort (epoch code : Nat)
  deriving DecidableEq

end Qeli.Wire
