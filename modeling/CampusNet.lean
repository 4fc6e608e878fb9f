import CampusNet.Lib.Runs
import CampusNet.Lib.CText
import CampusNet.Lib.Mail
import CampusNet.Lab5.Server
import CampusNet.Lab5.Client
import CampusNet.Lab5.Network
import CampusNet.Lab5.Agreement
import CampusNet.Lab5.OneLicence
import CampusNet.Homework8.FragmentPacket
import CampusNet.Homework11.SlidingWindow
import CampusNet.Homework11.Transmission
import CampusNet.Homework11.StopAndWait
import CampusNet.Homework9.DhcpPacket
import CampusNet.Homework9.DhcpServer
import CampusNet.Homework2.Multiplex
import CampusNet.Homework2.Encode
import CampusNet.Homework2.RoundTrip
import CampusNet.Homework13.Dijkstra
import CampusNet.Homework13.Greedy
import CampusNet.Homework13.ShortestPath
import CampusNet.Homework5.CsmaCd
import CampusNet.Homework5.Frames
import CampusNet.Lab5.AnyDatagram
import CampusNet.Lab5.Pairing
import CampusNet.Lab5.TicketValidity
import CampusNet.Homework11.Stranded
import CampusNet.Lib.Tlv
import CampusNet.Homework9.OptionReads
import CampusNet.Homework9.Answered
import CampusNet.Homework11.NtpServer
import CampusNet.Homework2.Capacity
import CampusNet.Homework9.OptionRoundTrip
import CampusNet.Homework8.FewestFragments
import CampusNet.Homework9.IcmpPing
import CampusNet.Homework2.CheckedDecode
import CampusNet.Homework2.Truncated
import CampusNet.Homework13.LargeWeights
import CampusNet.Homework13.NegativeEdges
import CampusNet.Homework13.Reconstruction
import CampusNet.Homework13.RipUpdate
import CampusNet.Homework13.RipRule
import CampusNet.Homework11.Monitor
import CampusNet.Homework11.LostPackets
import CampusNet.Homework6.BridgeLearning
import CampusNet.Homework6.ApDeployment
import CampusNet.Homework1.OpticalCommunication
import CampusNet.Homework4.ParityCheck
import CampusNet.Lib.Fairness
import CampusNet.Lib.Istream
import CampusNet.Lib.SlotPool
import CampusNet.Homework5.Progress
import CampusNet.Homework11.Completion
import CampusNet.Homework11.Verdicts
import CampusNet.Homework9.Ping
import CampusNet.Homework9.Responder
import CampusNet.Homework13.RipProgram
import CampusNet.Homework13.PathProgram
import CampusNet.Lab5.Reclaimed
import CampusNet.Lab5.LicencePool
import CampusNet.Homework1.Camera
import CampusNet.Lib.Spread
import CampusNet.Lib.Masked
import CampusNet.Homework2.Noise
import CampusNet.Homework6.MovingStations
import CampusNet.Homework8.IpAddressTools
import CampusNet.Homework8.Reassembly
import CampusNet.Homework6.CorridorRoutes
import CampusNet.Lab5.WireLog
