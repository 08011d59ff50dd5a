/-
A server: it takes connections for a console and gives each of them a session, with
Telnet or without.
-/
import RemoteConsole.Console.Work

namespace RemoteConsole

namespace Server

/-- How sessions are served. -/
inductive Mode where
  /-- Each by itself. -/
  | separate
  /-- All together with the taking of connections, which ends when they have
  ended. -/
  | together
deriving DecidableEq, Repr

structure Settings where
  mode : Mode := .separate
  /-- Whether connections speak Telnet. -/
  telnet : Bool := true
  telnetSettings : Telnet.Settings := {}
  /-- How many sessions are tracked at most; further connections are refused. -/
  maxSessions : Nat := 1000
  readTimeout : Option Channel.Duration := none
  /-- How often closed sessions are collected, in milliseconds, when they are served
  each by itself. -/
  collectPeriod : Option Nat := some 1000

/-- What a server has come to.  It serves once. -/
inductive Phase where
  | bound
  | serving
  | stopped
deriving DecidableEq, Repr

end Server

open Server in
structure Server where
  settings : Settings := {}
  console : Console
  phase : Phase := .bound
  /-- The connections that have not been taken, oldest first. -/
  waiting : List Network.ChannelId := []
  /-- The sessions that were started. -/
  visitors : List Session.Id := []
  /-- Whether connections are being taken. -/
  accepting : Bool := false
  /-- How far the taking of connections is followed: to so many of them. -/
  connections : Nat := 1099511627776

namespace Server

open Network (ChannelId)

def isRunning (s : Server) : Bool :=
  s.phase = .serving

def setConsole (c : Console) (s : Server) : Server :=
  { s with console := c }

def changeNetwork (s : Server) (f : Network → Network) : Server :=
  { s with console := { s.console with network := f s.console.network } }

/-- Connect: the far end of the connection.  Where no connections are taken any
more, the near end is let go at once. -/
def connect (s : Server) (capacity : Nat) : ChannelId × Server :=
  let (near, far, n) := s.console.network.addPipe capacity s.settings.readTimeout none
  let s := s.changeNetwork fun _ => n
  if s.phase = .stopped then (far, s.changeNetwork (·.dropEnd near))
  else (far, { s with waiting := s.waiting ++ [near] })

/-- Let go of the connections that have not been taken. -/
def refuseWaiting (s : Server) : Server :=
  { s.waiting.foldl (fun s c => s.changeNetwork (·.dropEnd c)) s with waiting := [] }

/-- Whether all sessions that were started have run to their ends. -/
def visitorsGone (s : Server) : Bool :=
  s.visitors.all fun i => (s.console.sessionState i).finished

end Server

end RemoteConsole
