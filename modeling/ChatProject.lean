import ChatProject.Run
import ChatProject.Memory
import ChatProject.ByteOrder
import ChatProject.LinkedList
import ChatProject.HashMap
import ChatProject.HashMapSpec
import ChatProject.Queue
import ChatProject.PoolAddr
import ChatProject.Protocol
import ChatProject.PackRoundTrip
import ChatProject.DataBase
import ChatProject.ServerApp
import ChatProject.Client
import ChatProject.StringMap
import ChatProject.NameSet
import ChatProject.Tables
import ChatProject.Simulation
import ChatProject.Requests
import ChatProject.History
import ChatProject.Accounts
import ChatProject.GroupAddresses
import ChatProject.Participants
import ChatProject.Membership
import ChatProject.EndToEnd
import ChatProject.Reachable
import ChatProject.Answers
import ChatProject.Isolation
import ChatProject.Logins
import ChatProject.AnsweredAddresses
import ChatProject.TimeVal
import ChatProject.TcpServer
import ChatProject.ServerSteps
import ChatProject.ServerRuns
import ChatProject.ClientTimes
import ChatProject.Expiry
import ChatProject.Waiting
import ChatProject.FiniteMap
import ChatProject.MapRefinement
import ChatProject.DLinkedList
import ChatProject.ListLinks
import ChatProject.ListSteps
import ChatProject.ListRuns
import ChatProject.Pairing
import ChatProject.Descriptors
import ChatProject.CircularArray
import ChatProject.QueueRuns
import ChatProject.MapInsertion
import ChatProject.MapDestroy
import ChatProject.Goodbyes
import ChatProject.ClientLimit
import ChatProject.FailedAccepts
import ChatProject.Registration
import ChatProject.GroupRecords
import ChatProject.Joining
import ChatProject.GroupCreation
import ChatProject.PassOutcomes
import ChatProject.Loop
import ChatProject.ListIterators
import ChatProject.ReceivePass
import ChatProject.SeveralLists
import ChatProject.TableSize
import ChatProject.IteratorEquality
import ChatProject.ListRanges
import ChatProject.RangeQueries
import ChatProject.BubblePass
import ChatProject.RangeSort
import ChatProject.RangeSplice
import ChatProject.RangeUnique
import ChatProject.RangeCut
import ChatProject.AddressPool
import ChatProject.QueueDestroy
import ChatProject.PidHash
import ChatProject.ReachedLists
import ChatProject.IteratorSteps
import ChatProject.ListDestroy
import ChatProject.Linearizability
import ChatProject.Conversation
import ChatProject.UI
import ChatProject.ChatWindow
import ChatProject.Sessions
import ChatProject.Grants
import ChatProject.SessionRuns
import ChatProject.SystemRuns
import ChatProject.ChatRooms
import ChatProject.ServerLife
import ChatProject.ServerProcess
import ChatProject.ProcessRuns
import ChatProject.ServingOrder
