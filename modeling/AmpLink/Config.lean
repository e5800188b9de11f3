/-!
# Settings

Constants of the protocol and the settings of clients and discovery runs. All durations are whole
milliseconds.
-/

namespace AmpLink

/-- The port that devices listen on. -/
def defaultPort : UInt16 := 5001

/-- The longest datagram that is read; what is longer is cut. -/
def maxDatagram : Nat := 1024

/-- Messages that a receiver shared by several clients holds back. -/
def receivedCapacity : Nat := 32

/-- Milliseconds between two rounds of a repeated command. -/
def commandInterval : Nat := 5000

structure ClientConfig where
  sendQueueCapacity : UInt64
  readTimeout : UInt64
  writeTimeout : UInt64
  deriving DecidableEq, Repr

def ClientConfig.standard : ClientConfig :=
  { sendQueueCapacity := 10, readTimeout := 200, writeTimeout := 10000 }

structure DiscoveryConfig where
  /-- The port that pings go to. -/
  port : UInt16
  /-- Interfaces that may be used, all of them if the list is empty. -/
  allowedInterfaces : List String
  scanInterval : UInt64
  pingInterval : UInt64
  /-- The silence after which a peer counts as lost. -/
  peerTimeout : UInt64
  deriving DecidableEq, Repr

def DiscoveryConfig.withPort (port : UInt16) : DiscoveryConfig :=
  { port, allowedInterfaces := [], scanInterval := 5000, pingInterval := 5000, peerTimeout := 30000 }

def DiscoveryConfig.standard : DiscoveryConfig := withPort defaultPort

end AmpLink
