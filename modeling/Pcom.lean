import Pcom.Lib.StepSystem
import Pcom.Lib.Scan
import Pcom.Lib.Words
import Pcom.Lib.Memory
import Pcom.Partial.Server
import Pcom.Partial.Balance
import Pcom.Partial.Accounts
import Pcom.Partial.Client
import Pcom.Partial.Protection
import Pcom.Tema2.Datagram
import Pcom.Tema2.Server
import Pcom.Tema2.Bookkeeping
import Pcom.Tema2.Commands
import Pcom.Lib.Mailbox
import Pcom.Tema2.Delivery
import Pcom.Tema2.Segmentation
import Pcom.Lib.Framing
import Pcom.Tema2.Subscriber
import Pcom.Tema2.RoundTrip
import Pcom.Lib.Bisect
import Pcom.Lib.Ipv4
import Pcom.Lib.BitTrie
import Pcom.Pirvu.RTable
import Pcom.Pirvu.BestEntry
import Pcom.Pirvu.Router
import Pcom.Pirvu.Conservation
import Pcom.Pirvu.Resolution
import Pcom.Lib.WaitingLine
import Pcom.Tema1.Route
import Pcom.Tema1.LongestPrefix
import Pcom.Tema1.Skel
import Pcom.Lib.Sweep
import Pcom.Tema1.Router
import Pcom.Tema1.Addressing
import Pcom.Tema1.Alignment
import Pcom.Tema1.ArpCache
import Pcom.Tema1.Pending
import Pcom.Tema1.Ttl
import Pcom.Tema1.Branches
import Pcom.Tema1.CellQueue
import Pcom.Tema1.Checksum
import Pcom.Lib.OnesComplement
import Pcom.Tema1.Verify
import Pcom.Tema1.Comparator
import Pcom.Tema1.Echo
import Pcom.Tema1.IcmpChecksum
import Pcom.Tema1.Leftover
import Pcom.Tema1.ReadTable
import Pcom.Tema1.Requests
import Pcom.Lab02.Transfer
import Pcom.Lab03.LinkedQueue
import Pcom.Lab03.Link
import Pcom.Lab03.Parity
import Pcom.Lab05.Traceroute
import Pcom.Lab06.Backup
import Pcom.Tema3.Client
import Pcom.Tema3.Session
import Pcom.Tema2.Subscriptions
import Pcom.Tema2.Malformed
import Pcom.Tema2.Translation
import Pcom.Tema2.Failures
import Pcom.Lib.Chain
import Pcom.Lib.Lines
import Pcom.Lib.Champion
import Pcom.Lab04.HeaderTest
import Pcom.Lab04.Router
import Pcom.Partial.Unknown
import Pcom.Tema1.Responder
import Pcom.Tema1.Acceptance
import Pcom.Tema3.Formats
import Pcom.Tema3.Responses
import Pcom.Lib.Json
import Pcom.Tema3.Bodies
import Pcom.Lib.Search
import Pcom.Lib.Http
import Pcom.Tema3.Receive
import Pcom.Lab10.Requests
import Pcom.Pirvu.Frames
import Pcom.Pirvu.Echo
import Pcom.Pirvu.Insertions
import Pcom.Pirvu.Leak
import Pcom.Lib.Network
import Pcom.Lab04.Forwarding
import Pcom.Lab04.Network
import Pcom.Lab04.ArpTable
import Pcom.Lab08.Server
import Pcom.Lab11.SendMail
import Pcom.Lab03.Window
import Pcom.Lib.HttpConnection
import Pcom.Lab10.Connection
import Pcom.Lab05.Ping
import Pcom.Lab07.Echo
import Pcom.Lab01.Tac
import Pcom.Tema2.EndToEnd
import Pcom.Lib.Stages
import Pcom.Lib.Pool
import Pcom.Partial.Terminal
import Pcom.Partial.Sessions
import Pcom.Partial.Money
import Pcom.Partial.Dialogue
import Pcom.Tema1.Relay
import Pcom.Tema1.Across
