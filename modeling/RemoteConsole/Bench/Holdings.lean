/-
Who holds the channels of a network: names, and calls in the background while they
are at work.  An end of a pipe that no one holds any more goes away at that very
moment.
-/
import RemoteConsole.Network.Channel

namespace RemoteConsole.Bench

open Network (ChannelId)

structure Holdings where
  network : Network := {}
  /-- The channels held by a name. -/
  named : List (String × ChannelId) := []
  /-- The channels of calls in the background, once for each call. -/
  busy : List ChannelId := []

namespace Holdings

variable {J α : Type}

/-- The channels that someone holds. -/
def kept (h : Holdings) : List ChannelId :=
  h.named.map Prod.snd ++ h.busy

/-- Let go of what no one holds. -/
def tidy (h : Holdings) : Holdings :=
  { h with network := h.network.release h.kept }

/-- The channel held by a name.  Where there is none, a number of no channel. -/
def find (h : Holdings) (name : String) : ChannelId :=
  (h.named.lookup name).getD h.network.nodes.size

def isNamed (h : Holdings) (name : String) : Bool :=
  h.named.any fun (other, _) => other = name

/-- Forget a name; what it held stays for the moment. -/
def forget (h : Holdings) (name : String) : Holdings :=
  { h with named := h.named.filter fun (other, _) => other ≠ name }

/-- Hold channels by names, in the place of what was held by them. -/
def hold (h : Holdings) (names : List (String × ChannelId)) : Holdings :=
  (names.foldl
    (fun h (name, c) => { h.forget name with named := (h.forget name).named ++ [(name, c)] })
    h).tidy

/-- Let go of what a name holds. -/
def drop (h : Holdings) (name : String) : Holdings :=
  (h.forget name).tidy

/-- Hold a channel for a call in the background. -/
def occupy (h : Holdings) (c : ChannelId) : Holdings :=
  { h with busy := c :: h.busy }

/-- Let go of a channel that was held for a call. -/
def vacate (c : ChannelId) (h : Holdings) : Holdings :=
  { h with busy := h.busy.erase c }.tidy

/-- Work on the network. -/
def work : Network.Work J α → Routine J Holdings α :=
  Routine.within network fun network h => { h with network }

/-- Do the work for which a channel is occupied, and let go of the channel at its
end, however it comes. -/
def workOccupied (c : ChannelId) (call : Network.Work J α) : Routine J Holdings α := do
  let result ← (work call).onAbandon (vacate c)
  Routine.modify (vacate c)
  return result

end Holdings

end RemoteConsole.Bench
