import RemoteConsole.Bench.Basic
import RemoteConsole.Scene.Step
import RemoteConsole.Server.Work
import RemoteConsole.Session.Desk
import RemoteConsole.Session.Script
import RemoteConsole.Proofs.Telnet.Messages
import RemoteConsole.Proofs.Telnet.Exchange
import RemoteConsole.Proofs.Telnet.Heeding
import RemoteConsole.Proofs.Telnet.Calls
import RemoteConsole.Proofs.Telnet.Connection
import RemoteConsole.Proofs.Telnet.Convergence
import RemoteConsole.Proofs.Telnet.Data
import RemoteConsole.Proofs.Telnet.Switching
import RemoteConsole.Proofs.Telnet.Transparency
import RemoteConsole.Proofs.Telnet.Reports
import RemoteConsole.Proofs.Telnet.Subnegotiation
import RemoteConsole.Proofs.Telnet.Refusal
import RemoteConsole.Proofs.Telnet.Turns
import RemoteConsole.Proofs.Telnet.WindowSize
import RemoteConsole.Proofs.Telnet.Channel
import RemoteConsole.Proofs.Telnet.LastWish
import RemoteConsole.Proofs.Telnet.Lossless
import RemoteConsole.Proofs.Telnet.Undelivered
import RemoteConsole.Proofs.Telnet.Synch
import RemoteConsole.Proofs.Telnet.Escaping
import RemoteConsole.Proofs.Telnet.CutShort
import RemoteConsole.Proofs.Telnet.Limit
import RemoteConsole.Proofs.Channel.Pair
import RemoteConsole.Proofs.Network.Messages
import RemoteConsole.Proofs.Network.Shutting
import RemoteConsole.Proofs.Network.Timeouts
import RemoteConsole.Proofs.Network.Closing
import RemoteConsole.Proofs.Session.Secrecy
import RemoteConsole.Proofs.Console.Running
import RemoteConsole.Proofs.Session.Dictionary
import RemoteConsole.Proofs.Session.HelpScreen
import RemoteConsole.Proofs.Session.History
import RemoteConsole.Proofs.Session.Life
import RemoteConsole.Proofs.Session.LineEnds
import RemoteConsole.Proofs.Text.Quoting
import RemoteConsole.Proofs.Session.Output
import RemoteConsole.Proofs.Session.Screen
